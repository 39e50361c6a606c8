import Foreman.Proofs.Engine.Life
import Foreman.Proofs.Retention

namespace Foreman.Engine

variable {b : Blueprint} {around : Surroundings} {t : Timeline} {s : State} {l : Loans}
  {move : Move} {slots : Nat} {id : JobId} {life : Life} {calls : Bool}

namespace State

def sweptFiles (s : State) : Tree := s.config.retention.swept s.registry s.files s.now

theorem swept_frame (s : State) : s.swept.files = s.sweptFiles ∧ s.swept.registry = s.registry := by
  unfold swept sweptFiles RetentionRules.swept State.sweep
  cases s.config.retention.sweep s.registry s.files s.now false with
  | error fault => exact ⟨rfl, rfl⟩
  | ok result => exact ⟨rfl, rfl⟩

-- When files are deleted in a move, it is those that are due by the registry that there is then.
theorem files_of_sweeps (h : s.sweeps move = true) : (s.apply move).files =
    s.config.retention.swept (s.apply move).registry s.files s.now := by
  cases move with
  | sweep dryRun =>
    obtain rfl : dryRun = false := by simpa [sweeps] using h
    have happly : s.apply (.sweep false) = s.swept := rfl
    obtain ⟨hfiles, hregistry⟩ := s.swept_frame
    rw [happly, hfiles, hregistry]
    rfl
  | maintain =>
    cases hupkeep : s.upkeep with
    | none => simp [sweeps, hupkeep] at h
    | some upkeep =>
      obtain ⟨hdue, hsweep⟩ : upkeep.due ≤ s.now ∧ s.tidied.isSweepDue upkeep.swept = true := by
        simpa [sweeps, hupkeep] using h
      have happly : s.apply .maintain = s.maintain upkeep := by
        simp only [apply, hupkeep, if_pos hdue]
      obtain ⟨hfiles, hregistry⟩ := s.tidied.swept_frame
      rw [happly, maintain_eq, if_pos hsweep]
      simp only [hfiles, hregistry]
      rfl
  | _ => cases h

end State

-- The file that a job ended with is among those that it lays claim to.
def Life.Covered (home : List String) (life : Life) : Prop :=
  ∀ job artifact, life.record = some job → job.result = some artifact →
    ∃ q ∈ life.paths, (Path.ofText artifact.path).normal home = q.normal home

namespace Turn

theorem covered_of_record {home : List String} {next : Job} (h : (s.life id).Covered home)
    {job : Job} (hjob : (s.life id).record = some job) (hresult : next.result = job.result) :
    ∀ found artifact, some next = some found → found.result = some artifact →
      ∃ q ∈ (s.life id).paths, (Path.ofText artifact.path).normal home = q.normal home := by
  rintro found artifact hfound hartifact
  obtain rfl := Option.some_inj.mp hfound
  exact h job artifact hjob (hresult ▸ hartifact)

theorem covered (hturn : Turn s move id calls life) (hmove : move ≠ .unprotect id)
    (h : (s.life id).Covered s.registry.home) : life.Covered s.registry.home := by
  cases hturn with
  | still => exact h
  | created params maxRetries _ _ =>
    intro job artifact hjob hresult
    obtain rfl := Option.some_inj.mp hjob
    cases hresult
  | submitted _ _ _ hnew priority =>
    obtain ⟨params, maxRetries, rfl⟩ := hnew
    intro job artifact hjob hresult
    obtain rfl := Option.some_inj.mp hjob
    cases hresult
  | prioritized _ _ hjob _ => exact covered_of_record h hjob rfl
  | queued _ _ hjob _ _ => exact covered_of_record h hjob rfl
  | taken _ _ => exact h
  | admitted _ _ _ => exact h
  | begun _ _ hjob _ => exact covered_of_record h hjob rfl
  | skipped _ _ _ => exact h
  | progressed _ hjob _ => exact covered_of_record h hjob rfl
  | ended _ _ hjob _ _ hconcludes =>
    cases hconcludes with
    | completed artifact =>
      intro job found hrecord hresult
      obtain rfl := Option.some_inj.mp hrecord
      obtain rfl := Option.some_inj.mp hresult
      obtain ⟨q, hq, hsame⟩ := s.registry.exists_mem_paths_claim id (Path.ofText artifact.path)
      have hhome := (s.registry.extends_claim id (Path.ofText artifact.path)).home
      refine ⟨q, hq, ?_⟩
      simpa [Registry.isSame, hhome] using hsame
    | retried _ _ _ => exact covered_of_record h hjob rfl
    | crowdedOut _ _ _ => exact covered_of_record h hjob rfl
    | exhausted _ _ => exact covered_of_record h hjob rfl
    | direct _ => exact covered_of_record h hjob rfl
    | nonRetriable _ => exact covered_of_record h hjob rfl
    | unexpected _ => exact covered_of_record h hjob rfl
  | claimed path _ =>
    intro job artifact hjob hresult
    obtain ⟨q, hq, hsame⟩ := h job artifact hjob hresult
    exact ⟨q, Registry.mem_paths_claim path hq, hsame⟩
  | released hreleased => exact absurd hreleased hmove
  | withdrawn _ _ _ => exact h
  | discarded _ _ _ _ => exact fun job artifact hjob => by cases hjob
  | evicted _ _ => exact fun job artifact hjob => by cases hjob

end Turn

-- An engine that was built and has been in use since then. The files beside it are not its own to
-- make, and nobody has given up those of the job.
inductive Serves (b : Blueprint) (around : Surroundings) (id : JobId) : Loans → Prop
  | built {t : Timeline} (hbuild : b.build around = .ok t) :
      Serves b around id (Loans.ofState t.state)
  | moved {l : Loans} {move : Move} (h : Serves b around id l) (hreturns : l.ReturnsOwn move)
      (hfresh : l.state.NamesAfresh move) (hmove : move ≠ .unprotect id) :
      Serves b around id (l.make move)
  | written {l : Loans} {files : Tree} (h : Serves b around id l)
      (hhome : files.home = l.state.files.home) :
      Serves b around id { l with state := { l.state with files := files } }

structure Guards (slots : Nat) (id : JobId) (l : Loans) : Prop where
  regular : l.Regular slots
  distinct : l.state.registry.Distinct
  home : l.state.registry.home = l.state.files.home
  covered : (l.state.life id).Covered l.state.registry.home

theorem Serves.run {moves : List Move} (h : Serves b around id l) (hlawful : l.Lawful moves)
    (hmoves : ∀ move ∈ moves, move ≠ .unprotect id) : Serves b around id (l.run moves) := by
  induction moves generalizing l with
  | nil => exact h
  | cons move moves ih =>
    obtain ⟨⟨hreturns, hfresh⟩, hlawful⟩ := hlawful
    exact ih (h.moved hreturns hfresh (hmoves move List.mem_cons_self)) hlawful
      fun other hother => hmoves other (List.mem_cons_of_mem _ hother)

theorem State.home_apply (s : State) (move : Move) (hsame : s.sweeps move = false →
    (s.apply move).files = s.files) : (s.apply move).files.home = s.files.home := by
  cases hsweeps : s.sweeps move with
  | false => rw [hsame hsweeps]
  | true =>
    rw [files_of_sweeps hsweeps, RetentionRules.swept_eq]
    split <;> rfl

theorem Guards.make (h : Guards slots id l) (hreturns : l.ReturnsOwn move)
    (hfresh : l.state.NamesAfresh move) (hmove : move ≠ .unprotect id) :
    Guards slots id (l.make move) := by
  have hwrites := Annals.make_writes h.regular hfresh
  have hextends : l.state.registry.Extends (l.make move).state.registry := hwrites.extends_registry
  have hcovered := (h.regular.turn hfresh id).covered hmove h.covered
  refine ⟨h.regular.make hreturns hfresh, hextends.distinct h.distinct, ?_, ?_⟩
  · rw [hextends.home, h.home]
    exact (l.state.home_apply move hwrites.files_eq).symm
  · rw [hextends.home]
    exact hcovered

theorem Serves.guards (h : Serves b around id l) : Guards (b.slots around) id l := by
  induction h with
  | built hbuild =>
    have hstate : (Loans.ofState _).state = b.initial around := Blueprint.state_of_build hbuild
    refine ⟨Blueprint.regular_of_build hbuild, ?_, ?_, ?_⟩
    · rw [hstate]
      exact List.nodup_nil
    · rw [hstate]
      rfl
    · rw [hstate]
      intro job artifact hjob
      cases hjob
  | moved _ hreturns hfresh hmove ih => exact ih.make hreturns hfresh hmove
  | written _ hhome ih =>
    obtain ⟨⟨hknown, hbalanced, hfaithful⟩, hdistinct, hsame, hcovered⟩ := ih
    exact ⟨⟨hknown, hbalanced, hfaithful⟩, hdistinct, hsame.trans hhome.symm, hcovered⟩

namespace State

-- A file lies in the output directory and is old enough, and nobody lays claim to it in the way
-- that a sweep spells its path: without a look at the steps back in either.
def Exposes (s : State) (registry : Registry) (place : List String) (changed : Int) : Prop :=
  ∃ dir name, s.files.directory s.config.retention.outputDir = .ok dir ∧ place = dir ++ [name] ∧
    RetentionRules.isHidden name = false ∧
    s.config.retention.age.toMillis ≤ RetentionRules.ageOf s.now changed ∧
    ∀ id, ∀ path ∈ registry.paths id, path.normal s.files.home ≠
      (s.config.retention.directory.child name).normal s.files.home

variable {place : List String} {size : Nat} {changed : Int} {registry : Registry}

theorem swept_takes_iff (hdistinct : registry.Distinct) (hhome : registry.home = s.files.home)
    (hplain : s.files.Plain) (hfile : s.files.node? place = some (.file size changed)) :
    (s.config.retention.swept registry s.files s.now).node? place = none ↔
      s.Exposes registry place changed := by
  rw [RetentionRules.swept_takes_iff hplain hfile]
  refine exists_congr fun dir => exists_congr fun name => ?_
  have hclaimed : registry.isClaimed (s.config.retention.directory.child name) = false ↔
      ∀ id, ∀ path ∈ registry.paths id, path.normal s.files.home ≠
        (s.config.retention.directory.child name).normal s.files.home := by
    rw [← Bool.not_eq_true, Registry.isClaimed_iff hdistinct, hhome.symm]
    simp only [not_exists, not_and, Registry.isSame, beq_iff_eq]
    exact forall_congr' fun id => forall_congr' fun path => imp_congr_right fun _ => ne_comm
  rw [← hclaimed]
  simp [RetentionRules.isDoomed]

-- The file of a job that is claimed in a way without steps back is never exposed, if there are none
-- in the output directory either.
theorem goesBack_of_exposes {text : String} (hplain : s.files.Plain)
    (hlocate : s.files.locate text = .ok place) (hexposes : s.Exposes registry place changed)
    (hclaim : ∃ q ∈ registry.paths id,
      (Path.ofText text).normal s.files.home = q.normal s.files.home) :
    (Path.ofText text).goesBack = true ∨ s.config.retention.directory.goesBack = true := by
  obtain ⟨dir, name, hdir, rfl, -, -, hunclaimed⟩ := hexposes
  obtain ⟨q, hq, hsame⟩ := hclaim
  by_contra hstraight
  obtain ⟨hpath, hout⟩ := not_or.mp hstraight
  have hnormal := hplain.normal_of_locate hlocate (Bool.eq_false_iff.mpr hpath)
  have hchild := Path.normal_child
    (hplain.normal_of_locate (Tree.locate_of_directory hdir) (Bool.eq_false_iff.mpr hout)) name
  exact hunclaimed id q hq (hsame.symm.trans (hnormal.trans hchild.symm))

end State

-- The file that a job ended with is deleted just in a sweep to which it is exposed, and it is
-- exposed only if its path or the output directory leads back somewhere.
theorem artifact_deleted_iff {job : Job} {artifact : Artifact} {place : List String} {size : Nat}
    {changed : Int} (hserves : Serves b around id l) (hreturns : l.ReturnsOwn move)
    (hfresh : l.state.NamesAfresh move) (hmove : move ≠ .unprotect id)
    (hjob : (l.make move).state.ledger.get? id = some job) (hresult : job.result = some artifact)
    (hplain : l.state.files.Plain) (hlocate : l.state.files.locate artifact.path = .ok place)
    (hfile : l.state.files.node? place = some (.file size changed)) :
    ((l.make move).state.files.node? place = none ↔
      l.state.sweeps move = true ∧
        l.state.Exposes (l.make move).state.registry place changed) ∧
    ((l.make move).state.files.node? place = none →
      (Path.ofText artifact.path).goesBack = true ∨
        l.state.config.retention.directory.goesBack = true) := by
  have hguards := hserves.guards
  have hafter := hguards.make hreturns hfresh hmove
  have hwrites := Annals.make_writes hguards.regular hfresh
  have hhome : (l.make move).state.registry.home = l.state.files.home :=
    hwrites.extends_registry.home.trans hguards.home
  have htaken : (l.make move).state.files.node? place = none ↔ l.state.sweeps move = true ∧
      l.state.Exposes (l.make move).state.registry place changed := by
    cases hsweeps : l.state.sweeps move with
    | false =>
      have hsame : (l.make move).state.files = l.state.files := hwrites.files_eq hsweeps
      simp [hsame, hfile]
    | true =>
      have hfiles : (l.make move).state.files = l.state.config.retention.swept
          (l.make move).state.registry l.state.files l.state.now := State.files_of_sweeps hsweeps
      rw [hfiles, State.swept_takes_iff hafter.distinct hhome hplain hfile]
      simp
  refine ⟨htaken, fun hgone => ?_⟩
  obtain ⟨q, hq, hsame⟩ := hafter.covered job artifact hjob hresult
  rw [hhome] at hsame
  exact State.goesBack_of_exposes hplain hlocate (htaken.mp hgone).2 ⟨q, hq, hsame⟩

-- An old file in the output directory, and a job that ends with it but gives its path by a detour.
def videoFiles : Tree :=
  ⟨[], [(["downloads"], .directory), (["downloads", "video.mp4"], .file 3 (-172800000))]⟩

def detour : Artifact := ⟨"downloads/../downloads/video.mp4", 3, 0.0⟩

def detourRun : List Move :=
  [.submit ⟨1⟩ [] 5 none, .start, .poll, .beginTask 0, .endTask 0 (.ok detour)]

theorem videoFiles_plain : videoFiles.Plain where
  distinct := by decide
  unlinked := by simp [videoFiles]

theorem locate_detour : videoFiles.locate detour.path = .ok ["downloads", "video.mp4"] := by
  have hpath : Path.ofText "downloads/../downloads/video.mp4" =
      .along .here ["downloads", "..", "downloads", "video.mp4"] .step := by decide
  have hwhole : ¬ Tree.maxPath < "downloads/../downloads/video.mp4".utf8ByteSize := by decide
  have hdir : ¬ Tree.maxStep < "downloads".utf8ByteSize := by decide
  have hname : ¬ Tree.maxStep < "video.mp4".utf8ByteSize := by decide
  simp [Tree.locate, detour, hpath, Tree.resolve, Tree.walk, Tree.node?, videoFiles, Path.route,
    hwhole, hdir, hname]

theorem directory_downloads : videoFiles.directory "downloads" = .ok ["downloads"] := by
  have hpath : Path.ofText "downloads" = .along .here ["downloads"] .step := by decide
  have hwhole : ¬ Tree.maxPath < "downloads".utf8ByteSize := by decide
  have hdir : ¬ Tree.maxStep < "downloads".utf8ByteSize := by decide
  simp [Tree.directory, Tree.locate, hpath, Tree.resolve, Tree.walk, Tree.node?, videoFiles,
    Path.route, hwhole, hdir]

def besideVideos : Surroundings := { (default : Surroundings) with files := videoFiles }

def detoured : Loans := (Loans.ofState ((Blueprint.idle 1).initial besideVideos)).run detourRun

theorem detoured_serves : Serves (Blueprint.idle 1) besideVideos ⟨1⟩ detoured := by
  have hbuild : (Blueprint.idle 1).build besideVideos = .ok _ := rfl
  refine (Serves.built hbuild).run ?_ ?_
  · show (Loans.ofState ((Blueprint.idle 1).initial besideVideos)).Lawful detourRun
    decide
  · simp [detourRun]

theorem detoured_record : ∃ job, (detoured.make (.sweep false)).state.ledger.get? ⟨1⟩ = some job ∧
    job.status = .completed ∧ job.result = some detour := by
  obtain ⟨files, hswept⟩ := detoured.state.exists_swept_eq
  have hmake : (detoured.make (.sweep false)).state = detoured.state.swept := rfl
  rw [hmake, hswept]
  exact ⟨_, rfl, rfl, rfl⟩

theorem artifact_deleted_iff_detoured :
    (detoured.make (.sweep false)).state.files.node? ["downloads", "video.mp4"] = none ↔
      detoured.state.sweeps (.sweep false) = true ∧
        detoured.state.Exposes (detoured.make (.sweep false)).state.registry
          ["downloads", "video.mp4"] (-172800000) := by
  obtain ⟨job, hjob, -, hresult⟩ := detoured_record
  have hreturns : detoured.ReturnsOwn (.sweep false) := trivial
  have hfresh : detoured.state.NamesAfresh (.sweep false) := by decide
  have hfile : videoFiles.node? ["downloads", "video.mp4"] = some (.file 3 (-172800000)) := rfl
  exact (artifact_deleted_iff detoured_serves hreturns hfresh (by simp) hjob hresult
    videoFiles_plain locate_detour hfile).1

-- The job is over and in the ledger, nobody has given up its file, and a sweep deletes it.
theorem detoured_loses_file :
    Serves (Blueprint.idle 1) besideVideos ⟨1⟩ detoured ∧
      (∃ job, (detoured.make (.sweep false)).state.ledger.get? ⟨1⟩ = some job ∧
        job.status = .completed ∧ job.result = some detour) ∧
      detoured.state.files.Plain ∧
      detoured.state.files.locate detour.path = .ok ["downloads", "video.mp4"] ∧
      detoured.state.files.node? ["downloads", "video.mp4"] = some (.file 3 (-172800000)) ∧
      (detoured.make (.sweep false)).state.files.node? ["downloads", "video.mp4"] = none := by
  have hfile : videoFiles.node? ["downloads", "video.mp4"] = some (.file 3 (-172800000)) := rfl
  refine ⟨detoured_serves, detoured_record, videoFiles_plain, locate_detour, hfile, ?_⟩
  have hfiles : (detoured.make (.sweep false)).state.files = detoured.state.sweptFiles :=
    detoured.state.swept_frame.1
  rw [hfiles, State.sweptFiles]
  refine (RetentionRules.swept_takes_iff videoFiles_plain hfile).mpr
    ⟨["downloads"], "video.mp4", directory_downloads, rfl, rfl, ?_⟩
  decide

end Foreman.Engine
