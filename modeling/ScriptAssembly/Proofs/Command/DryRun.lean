import ScriptAssembly.Proofs.Command.Stamping
import ScriptAssembly.Proofs.Machine.Absence

/-!
# What a dry run vouches for

A stamp is made from what stands at the path of the binary, whichever backend has run.  A dry run
writes nothing there, so it vouches for a file that stood there before and for nothing else.  A path
that leads to no file goes on leading to none through any run of builds whose compilers and stamps
put none there, and after such a run a dry run vouches for nothing.
-/

namespace ScriptAssembly

theorem Backend.eq_dryRun_of_name {spawn : Spawn} {configured : Option Path}
    {backend : Backend (StateM Machine)} (hbackend : backend ∈ all spawn configured)
    (hname : backend.name = DryRun.backend.name) : backend = DryRun.backend := by
  simp only [all, List.mem_cons, List.not_mem_nil, or_false] at hbackend
  rcases hbackend with rfl | rfl
  · exact absurd hname (show "csc" ≠ "dry-run" by decide)
  · rfl

namespace Handover

variable {handed : Handover} {ready : Machine} {p : Path} {place : Place}

/-- A backend leaves a path leading to no file if its compiler does. -/
theorem lacks_compiled {spawn : Spawn} {configured : Option Path}
    (hbackend : handed.backend ∈ Backend.all spawn configured)
    (hspawns : ∀ before after, handed.backend.Spawns spawn handed.descriptor ready before after →
      before.Lacks p place → after.Lacks p place) (hlacks : ready.Lacks p place) :
    (((handed.backend.compile handed.descriptor).run).run ready).2.Lacks p place := by
  have hmade := hlacks.of_grows (Compiler.grows_makeOutputDirectory handed.descriptor ready)
  rcases Backend.compile_cases hbackend handed.descriptor ready with hsame | hsame | hspawned
  · rw [hsame]
    exact hlacks
  · rw [hsame]
    exact hmade
  · exact hspawns _ _ hspawned hmade

/-- Behind the backend only the stamp is written. -/
theorem lacks_report {now : String} {json : Bool} {before : String}
    (hcompiled : (((handed.backend.compile handed.descriptor).run).run ready).2.Lacks p place)
    (hstamp : ∀ written, (handed.report now json before ready).machine.LeadsTo
      handed.layout.stampPath written → ¬written <+: place) :
    (handed.report now json before ready).machine.Lacks p place := by
  have hprepared := hcompiled.of_grows (Machine.grows_makeDirectories _ handed.layout.metaDirectory)
  rcases handed.report_cases now json before ready with
    ⟨o, after, hsucceeds, -, hmachine⟩ | ⟨-, -, hmachine | hmachine⟩
  · rcases Stamp.refresher_cases handed.layout.stampPath now o.outputPath
      (((handed.backend.compile handed.descriptor).run).run ready).2 with
      ⟨e, hfailed⟩ | ⟨_, last, written, _, hwritten, -, hwrites⟩
    · cases hfailed.symm.trans hsucceeds.refreshes
    · obtain rfl : last = after := congrArg Prod.snd (hwritten.symm.trans hsucceeds.refreshes)
      rw [Stamp.prepared_stampPath] at hwrites
      rw [hmachine] at hstamp ⊢
      exact hprepared.of_writes hwrites
        (hstamp written ⟨_, Disk.locate_of_lookup hwrites.find_written⟩)
  · rw [hmachine]
    exact hcompiled
  · rw [hmachine]
    exact hprepared

end Handover

namespace Request

/-- The build puts no file at the place of a path or on the way there: neither does its compiler,
nor is that where its stamp goes. -/
structure Avoids (host : Host) (request : Request) (m : Machine) (p : Path) (place : Place) :
    Prop where
  /-- The compiler, if it is run, leaves the path leading to no file. -/
  compiler : ∀ handover handed ready before after, request.handover? host = some handover →
    handover m = (.ok handed, ready) →
    handed.backend.Spawns host.spawn handed.descriptor ready before after →
    before.Lacks p place → after.Lacks p place
  /-- The stamp is somewhere else. -/
  stamp : ∀ layout written, request.layout? m = some layout →
    (request.run host m).machine.LeadsTo layout.stampPath written → ¬written <+: place

variable {host : Host} {request : Request} {handover : Effect Handover} {m : Machine}

/-- The half of a build in front of its backend changes at most what a configuration holds. -/
theorem alike_of_handover? (hhandover : request.handover? host = some handover) (m : Machine) :
    m.Alike (handover m).2 := by
  cases request with
  | build root asked skipScan json =>
      cases hhandover
      exact Effect.alike_handover host.spawn root asked skipScan m
  | buildManifest path asked json =>
      cases hhandover
      exact .refl m
  | _ => cases hhandover

/-- A path that leads to no file goes on leading to none if a build avoids its place. -/
theorem lacks_run (hhandover : request.handover? host = some handover) {p : Path} {place : Place}
    (havoids : request.Avoids host m p place) (hlacks : m.Lacks p place) :
    (request.run host m).machine.Lacks p place := by
  have hready := hlacks.of_alike (alike_of_handover? hhandover m)
  rcases hhanded : handover m with ⟨e | handed, ready⟩
  · rw [hhanded] at hready
    rw [run_of_handover_error hhandover hhanded]
    exact hready
  · rw [hhanded] at hready
    obtain ⟨hlayout, -, configured, hbackend⟩ := of_handover? hhandover hhanded
    have hcompiled := Handover.lacks_compiled hbackend
      (fun before after => havoids.compiler _ _ _ before after hhandover hhanded) hready
    have hstamp := fun written => havoids.stamp handed.layout written hlayout
    obtain ⟨json, before, hrun⟩ := run_of_handover_ok hhandover hhanded
    rw [hrun] at hstamp ⊢
    exact Handover.lacks_report hcompiled hstamp

/-- A dry run that succeeds leaves a stamp of what stood at the path of the binary before. -/
theorem stamp_of_dryRun (hhandover : request.handover? host = some handover) {handed : Handover}
    {ready : Machine} (hhanded : handover m = (.ok handed, ready))
    (hdry : handed.backend.name = DryRun.backend.name)
    (hsucceeds : (request.run host m).result = .ok ()) :
    ∃ stamp : Stamp, stamp.TellsOf ready handed.descriptor.outputPath host.now ∧
      (request.run host m).machine.readText handed.layout.stampPath = .ok stamp.toJson.pretty ∧
      Json.decodeText Stamp.decode stamp.toJson.pretty = .ok stamp ∧
      (stamp.digest = none ↔ m.isFile handed.descriptor.outputPath = false) := by
  obtain ⟨_, _, o, compiled, after, hsame, hends⟩ := (result_eq_ok_iff hhandover m).mp hsucceeds
  cases hhanded.symm.trans hsame
  obtain ⟨-, -, configured, hbackend⟩ := of_handover? hhandover hhanded
  have hbackend := Backend.eq_dryRun_of_name hbackend hdry
  have hcompiles := hends.compiles
  rw [hbackend] at hcompiles
  obtain rfl : ready = compiled := congrArg Prod.snd hcompiles
  obtain ⟨-, -, -, stamp, htells, hread, hdecode⟩ := stamp_of_succeeds hhandover hhanded hends
  have halike := alike_of_handover? hhandover m
  rw [hhanded] at halike
  exact ⟨stamp, htells, hread, hdecode, by rw [htells.noDigest, halike.isFile]⟩

end Request

/-- The machine after requests, each run on a host of its own. -/
def Machine.afterRequests (m : Machine) (requests : List (Host × Request)) : Machine :=
  requests.foldl (fun m (host, request) => (request.run host m).machine) m

/-- The requests are builds, and none of them puts a file at the place of the path or on the way
there. -/
def BuildsAvoid (p : Path) (place : Place) : Machine → List (Host × Request) → Prop
  | _, [] => True
  | m, (host, request) :: rest =>
    (request.handover? host).isSome ∧ request.Avoids host m p place ∧
      BuildsAvoid p place (request.run host m).machine rest

/-- A path that leads to no file goes on leading to none through builds that avoid its place. -/
theorem BuildsAvoid.lacks {p : Path} {place : Place} {m : Machine}
    {builds : List (Host × Request)} (hbuilds : BuildsAvoid p place m builds)
    (hlacks : m.Lacks p place) : (m.afterRequests builds).Lacks p place := by
  induction builds generalizing m with
  | nil => exact hlacks
  | cons build rest ih =>
      obtain ⟨hbuild, havoids, hrest⟩ := hbuilds
      obtain ⟨handover, hhandover⟩ := Option.isSome_iff_exists.mp hbuild
      exact ih hrest (Request.lacks_run hhandover havoids hlacks)

/-- After any run of requests, a dry run that succeeds leaves a stamp with the digest of the file
that stands at the path of the binary, and with none exactly if no file stood there before.  So it
has no digest if the path led to no file at first and builds have run that put none there. -/
theorem digest_of_dryRun (start : Machine) (requests : List (Host × Request)) (host : Host)
    (request : Request) (handover : Effect Handover) (handed : Handover) (ready : Machine)
    (hhandover : request.handover? host = some handover)
    (hhanded : handover (start.afterRequests requests) = (.ok handed, ready))
    (hdry : handed.backend.name = DryRun.backend.name) :
    let m := start.afterRequests requests
    let report := request.run host m
    let binary := handed.descriptor.outputPath
    report.result = .ok () →
    ∃ stamp : Stamp, stamp.TellsOf ready binary host.now ∧
      report.machine.readText handed.layout.stampPath = .ok stamp.toJson.pretty ∧
      Json.decodeText Stamp.decode stamp.toJson.pretty = .ok stamp ∧
      (stamp.digest = none ↔ m.isFile binary = false) ∧
      ∀ place, start.Lacks binary place → BuildsAvoid binary place start requests →
        stamp.digest = none := by
  intro m report binary hsucceeds
  obtain ⟨stamp, htells, hread, hdecode, hdigest⟩ :=
    Request.stamp_of_dryRun hhandover hhanded hdry hsucceeds
  refine ⟨stamp, htells, hread, hdecode, hdigest, fun place hlacks hbuilds => ?_⟩
  exact hdigest.mpr (hbuilds.lacks hlacks).isFile

section Draft

/-- An older binary at the path of the draft's binary. -/
def oldBinary : List (Place × Entry) :=
  [(["w", "src", "CompiledScripts.dll"], .file "old".toUTF8 false)]

/-- A stamp that an earlier build of the draft has left. -/
def oldStamp : List (Place × Entry) := [(draftStamp, .file "old".toUTF8 false)]

theorem find_oldStamp : (draft draftConfig oldStamp).find draftLayout.stampPath =
    .ok (.found draftStamp (.file "old".toUTF8 false)) := by
  refine Disk.lookup_of_leads
    ["".toList, "w".toList, ".dll-forge".toList, "last_build.json".toList] (by decide) rfl ?_
  exact .silent (.inl rfl) (.directory (by decide) rfl
    (.directory (by decide) rfl (.file (by decide) rfl)))

theorem find_binary_oldStamp :
    (draft draftConfig oldStamp).find checkedDraft.descriptor.outputPath =
      .ok (.vacant ["w", "src", "CompiledScripts.dll"] false) := by
  refine Disk.lookup_of_leads
    ["".toList, "w".toList, "src".toList, "CompiledScripts.dll".toList] (by decide) rfl ?_
  exact .silent (.inl rfl) (.directory (by decide) rfl
    (.directory (by decide) rfl (.vacant (by decide) rfl rfl)))

theorem find_oldBinary :
    (draft draftConfig oldBinary).find checkedDraft.descriptor.outputPath =
      .ok (.found ["w", "src", "CompiledScripts.dll"] (.file "old".toUTF8 false)) := by
  refine Disk.lookup_of_leads
    ["".toList, "w".toList, "src".toList, "CompiledScripts.dll".toList] (by decide) rfl ?_
  exact .silent (.inl rfl) (.directory (by decide) rfl
    (.directory (by decide) rfl (.file (by decide) rfl)))

theorem find_stamp_oldBinary : (draft draftConfig oldBinary).find draftLayout.stampPath =
    .ok (.vacant draftStamp false) :=
  lookup_stamp_of_free draftConfig oldBinary true rfl

/-- A dry run of the draft hands it over to be checked. -/
theorem handover_checkedDraft (added : List (Place × Entry)) :
    Effect.handover Host.idle.spawn "/w" (some "dry-run") true (draft draftConfig added) =
      (.ok checkedDraft, draft draftConfig added) :=
  @handover_draft Host.idle.spawn draftConfig added (some "dry-run") DryRun.backend rfl

/-- After a dry run that has replaced the stamp of the draft, another one vouches for nothing. -/
theorem digest_of_dryRun_draft :
    let m := draft draftConfig oldStamp
    let check := Request.build "/w" (some "dry-run") true true
    let first := check.run .idle m
    let report := check.run .idle (m.afterRequests [(.idle, check)])
    first.result = .ok () ∧ report.result = .ok () ∧
      ∃ stamp : Stamp, report.machine.readText draftLayout.stampPath = .ok stamp.toJson.pretty ∧
        stamp.digest = none := by
  intro m check first report
  have hopen : Project.openAt m "/w" = .ok draftProject := openAt_draft draftConfig oldStamp
  have hconfig : m.find draftProject.layout.configPath = _ := find_config_draft draftConfig oldStamp
  have hsource := find_source_draft draftConfig oldStamp
  obtain ⟨hfirst, _, -, hwrites⟩ := Request.run_build_dryRun .idle "/w" true hopen hconfig
    find_oldStamp (clean_of_source (Machine.isFile_of_find hsource) _ _)
  -- The earlier build has written its stamp and nothing else, so the project is opened as before.
  have hkept := hwrites.find_other hconfig (by decide)
  have hroot : first.machine.namedRoot "/w" = .ok ⟨"/w"⟩ :=
    Machine.namedRoot_of_place (by decide) (by decide) (by decide)
      (hwrites.find_other (find_root_draft draftConfig oldStamp) (by decide))
  have hreopen : Project.openAt first.machine "/w" = .ok draftProject :=
    Project.openAt_of_find hroot hkept
  obtain ⟨hsucceeds, -⟩ := Request.run_build_dryRun .idle "/w" true hreopen hkept
    hwrites.find_written
    (clean_of_source (Machine.isFile_of_find (hwrites.find_other hsource (by decide))) _ _)
  have hhanded : Effect.handover Host.idle.spawn "/w" (some "dry-run") true first.machine =
      (.ok checkedDraft, first.machine) := Effect.handover_of_openAt hreopen
  have havoids : check.Avoids .idle m checkedDraft.descriptor.outputPath
      ["w", "src", "CompiledScripts.dll"] := by
    refine ⟨?_, fun layout written hlayout hleads => ?_⟩
    · rintro _ _ _ before _ _ _ ⟨_, _, _, _, _, rfl⟩ hbefore
      exact hbefore
    · rw [Request.layout?, namedRoot_draft] at hlayout
      cases hlayout
      obtain ⟨entry, hlocate⟩ := hleads
      cases hlocate.symm.trans (Disk.locate_of_lookup hwrites.find_written)
      decide
  obtain ⟨stamp, -, hread, -, -, hnone⟩ :=
    digest_of_dryRun m [(.idle, check)] .idle check _ checkedDraft first.machine rfl hhanded rfl
      hsucceeds
  exact ⟨hfirst, hsucceeds, stamp, hread,
    hnone _ (Machine.lacks_of_vacant find_binary_oldStamp) ⟨rfl, havoids, trivial⟩⟩

/-- Where an older binary stands, a dry run that succeeds vouches for it. -/
theorem dryRun_vouches_for_oldBinary :
    let m := draft draftConfig oldBinary
    let report := (Request.build "/w" (some "dry-run") true true).run .idle m
    Effect.handover Host.idle.spawn "/w" (some "dry-run") true m = (.ok checkedDraft, m) ∧
    checkedDraft.backend.name = "dry-run" ∧ report.result = .ok () ∧
      ∃ stamp : Stamp, report.machine.readText draftLayout.stampPath = .ok stamp.toJson.pretty ∧
        Json.decodeText Stamp.decode stamp.toJson.pretty = .ok stamp ∧
        stamp.digest = some (Sha256.hex "old".toUTF8.data.toList) := by
  intro m report
  have hhanded := handover_checkedDraft oldBinary
  have hsucceeds : report.result = .ok () := by
    obtain ⟨o, after, hends⟩ := succeeds_checkedDraft_of_vacant find_stamp_oldBinary
    exact (Request.result_eq_ok_iff rfl m).mpr ⟨_, _, o, _, after, hhanded, hends⟩
  obtain ⟨stamp, htells, hread, hdecode, -⟩ :=
    Request.stamp_of_dryRun rfl hhanded rfl hsucceeds
  exact ⟨hhanded, rfl, hsucceeds, stamp, hread, hdecode,
    (htells.digest _).mpr ⟨_, Machine.readBytes_of_find find_oldBinary, rfl⟩⟩

end Draft

end ScriptAssembly
