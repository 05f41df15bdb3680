import WorkflowBoard.ForStd.List
import WorkflowBoard.Native.SqljsFlush

/-!
# No committed write is forgotten by the flush

The invariant numbers the committed images: memory and file each hold one of them, and an
image on its way to the file is never older than the one there. A clear dirty mark means
that the newest commit is in the file, is being written, or belongs to an export that has
failed and is about to mark dirty again.

## 
-/

namespace WorkflowBoard.Sqljs

variable {D : Type} {s s' : FlushState D} {i : Nat} {f : Flush D}

/-! ## Invariant -/

/-- What is known of the flush `f` at position `i`, by its phase. -/
def FlushOk (s : FlushState D) (i : Nat) (f : Flush D) : Prop :=
  f.calledAt ≤ s.commits ∧
  match f.phase with
  | .writing image number _ =>
    s.sqljsFileWrites = some ⟨i, false⟩ ∧ image = s.log number ∧
      s.fileAt ≤ number ∧ number ≤ s.commits ∧ f.calledAt ≤ number
  | .exported ok | .settled ok => ok = true → f.calledAt ≤ s.fileAt
  | .returned saved => (saved = true → f.calledAt ≤ s.fileAt) ∧ (f.force = true → saved = true)
  | _ => True

/-- The newest commit is safe although the dirty mark is clear: it is being written, or its
    export failed and will mark dirty. -/
def FlushPhase.carries (commits : Nat) : FlushPhase D → Prop
  | .writing _ number _ => number = commits
  | .exported ok => ok = false
  | _ => False

structure FlushInv (s : FlushState D) : Prop where
  mem_eq : s.mem = s.log s.commits
  file_eq : s.file = s.log s.fileAt
  fileAt_le : s.fileAt ≤ s.commits
  flush_ok : ∀ i f, s.flushes[i]? = some f → FlushOk s i f
  clean : s.sqljsDirty = false →
    s.fileAt = s.commits ∨
      ∃ (i : Nat) (f : Flush D), s.flushes[i]? = some f ∧ f.phase.carries s.commits

theorem flushInv_boot (file : D) : FlushInv (.boot file) where
  mem_eq := rfl
  file_eq := rfl
  fileAt_le := Nat.le_refl _
  flush_ok := by
    intro i f h
    simp [FlushState.boot] at h
  clean := fun _ => .inl rfl

/-! ## Updating one flush -/

variable {p : FlushPhase D}

theorem phase_eq_some (h : s.phase i = some p) :
    ∃ f, s.flushes[i]? = some f ∧ f.phase = p := by
  simpa [FlushState.phase] using h

/-- One flush moves to the phase `p`. The dirty mark may be cleared when the flush carries
    the newest commit from then on. -/
theorem FlushInv.setPhase (hinv : FlushInv s) (hf : s.flushes[i]? = some f)
    (dirty : Bool) (hok : FlushOk s i { f with phase := p })
    (hclean : dirty = false → p.carries s.commits ∨
      s.sqljsDirty = false ∧ (f.phase.carries s.commits → s.fileAt = s.commits)) :
    FlushInv { s.setPhase i p with sqljsDirty := dirty } where
  mem_eq := hinv.mem_eq
  file_eq := hinv.file_eq
  fileAt_le := hinv.fileAt_le
  flush_ok := by
    intro j g hg
    rcases getElem?_modify_cases hg with ⟨rfl, f', hf', rfl⟩ | ⟨_, hg⟩
    · have hsame : f = f' := Option.some.inj (hf.symm.trans hf')
      subst hsame
      exact hok
    · exact hinv.flush_ok j g hg
  clean := by
    intro hd
    have hmoved : (s.setPhase i p).flushes[i]? = some { f with phase := p } :=
      getElem?_modify_self hf
    rcases hclean hd with hp | ⟨hd, hold⟩
    · exact .inr ⟨i, _, hmoved, hp⟩
    rcases hinv.clean hd with hall | ⟨j, g, hg, hc⟩
    · exact .inl hall
    · by_cases hij : i = j
      · -- the flush that carried the newest commit is the one that moves
        subst hij
        have hsame : f = g := Option.some.inj (hf.symm.trans hg)
        subst hsame
        exact .inl (hold hc)
      · have hkeep : (s.setPhase i p).flushes[j]? = some g :=
          (getElem?_modify_other hij).trans hg
        exact .inr ⟨j, g, hkeep, hc⟩

/-- A change of the flags the invariant does not read, and a dirty mark that is only set. -/
theorem FlushInv.flags (hinv : FlushInv s) (dirty open_ : Bool) (inFlight : Option Nat)
    (hd : dirty = false → s.sqljsDirty = false) :
    FlushInv { s with
      sqljsDirty := dirty, transactionOpen := open_, sqljsFlushInFlight := inFlight } where
  mem_eq := hinv.mem_eq
  file_eq := hinv.file_eq
  fileAt_le := hinv.fileAt_le
  flush_ok := hinv.flush_ok
  clean := fun h => hinv.clean (hd h)

/-! ## Statements -/

theorem FlushOk.commitImage (d : D) (h : FlushOk s i f) : FlushOk (s.commitImage d) i f := by
  unfold FlushOk at h ⊢
  obtain ⟨hcalled, h⟩ := h
  refine ⟨Nat.le_succ_of_le hcalled, ?_⟩
  cases hp : f.phase with
  | writing image number restoreFailed =>
    simp only [hp] at h ⊢
    obtain ⟨hw, himage, hfile, hle, hcall⟩ := h
    have hne : number ≠ s.commits + 1 := by omega
    exact ⟨hw, by simp [FlushState.commitImage, hne, himage], hfile, Nat.le_succ_of_le hle, hcall⟩
  | exported | settled | returned =>
    simp only [hp] at h ⊢
    exact h
  | awaiting | exporting | threw => trivial

section

variable (hinv : FlushInv s)
include hinv

theorem FlushInv.commitImage (d : D) (open_ : Bool) :
    FlushInv { s.commitImage d with sqljsDirty := true, transactionOpen := open_ } where
  mem_eq := by simp [FlushState.commitImage]
  file_eq := by
    have hne : s.fileAt ≠ s.commits + 1 := by
      have := hinv.fileAt_le
      omega
    simp [FlushState.commitImage, hne, hinv.file_eq]
  fileAt_le := Nat.le_succ_of_le hinv.fileAt_le
  flush_ok := fun i f hf => (hinv.flush_ok i f hf).commitImage d
  clean := nofun

theorem FlushInv.statement {st : Statement D}
    (h : afterQuery st <$> execute s st = .ok s') : FlushInv s' := by
  cases st with
  | select | pragma =>
    cases h
    exact hinv
  | begin | rollback =>
    simp only [execute, except_map_eq_ok, bind_eq_ok, pure_eq_ok] at h
    obtain ⟨_, ⟨_, _, rfl⟩, rfl⟩ := h
    exact hinv.flags true _ _ (by rintro ⟨⟩)
  | write d =>
    simp only [execute, except_map_eq_ok, Except.ok.injEq] at h
    obtain ⟨_, rfl, rfl⟩ := h
    split
    · exact hinv.flags true _ _ (by rintro ⟨⟩)
    · exact hinv.commitImage d _
  | commit d =>
    simp only [execute, except_map_eq_ok, bind_eq_ok, pure_eq_ok] at h
    obtain ⟨_, ⟨_, _, rfl⟩, rfl⟩ := h
    exact hinv.commitImage d _

/-! ## Flushes -/

/-- `flushSqljs` is called: a new flush, which waits, exports or has returned at once. -/
theorem FlushInv.called {force holdsTurn : Bool} {phase : FlushPhase D}
    (hok : FlushOk s s.flushes.length ⟨force, holdsTurn, s.commits, phase⟩) :
    FlushInv (s.called force holdsTurn phase) where
  mem_eq := hinv.mem_eq
  file_eq := hinv.file_eq
  fileAt_le := hinv.fileAt_le
  flush_ok := by
    intro j f hf
    rcases getElem?_append_cases hf with hf | ⟨rfl, rfl⟩
    · exact hinv.flush_ok j f hf
    · exact hok
  clean := by
    intro hd
    rcases hinv.clean hd with hall | ⟨j, f, hf, hc⟩
    · exact .inl hall
    · have hj : j < s.flushes.length := lt_of_getElem? hf
      exact .inr ⟨j, f, by rw [FlushState.called, List.getElem?_append_left hj, hf], hc⟩

/-- A flush that carries no commit starts its export. -/
theorem FlushInv.startExport (hf : s.flushes[i]? = some f)
    (hphase : ¬ f.phase.carries s.commits) : FlushInv (startExport s i) := by
  have hcalled := (hinv.flush_ok i f hf).1
  have hmoved : FlushInv { s.setPhase i .exporting with sqljsDirty := s.sqljsDirty } :=
    hinv.setPhase hf _ ⟨hcalled, trivial⟩ (fun hd => .inr ⟨hd, fun hc => absurd hc hphase⟩)
  exact hmoved.flags _ _ _ id

theorem FlushInv.flush (force holdsTurn : Bool) :
    FlushInv (flushSqljs s force holdsTurn) := by
  have hstart : FlushInv
      (Sqljs.startExport (s.called force holdsTurn .exporting) s.flushes.length) := by
    have hcalled : FlushInv (s.called force holdsTurn .exporting) :=
      hinv.called ⟨Nat.le_refl _, trivial⟩
    have hlast : (s.called force holdsTurn .exporting).flushes[s.flushes.length]? =
        some ⟨force, holdsTurn, s.commits, .exporting⟩ := by
      simp [FlushState.called]
    exact hcalled.startExport hlast id
  have hskip : force = false → FlushInv (s.called force holdsTurn (.returned false)) := by
    intro hforce
    exact hinv.called ⟨Nat.le_refl _, by simp [hforce]⟩
  unfold flushSqljs
  cases s.sqljsFlushInFlight with
  | some other =>
    cases force with
    | false => exact hskip rfl
    | true =>
      cases holdsTurn with
      | false => exact hinv.called ⟨Nat.le_refl _, trivial⟩
      | true => exact hstart
  | none =>
    by_cases hclean : (!force && !s.sqljsDirty) = true
    · simp only [hclean, if_true]
      exact hskip (by simp_all)
    · simp only [hclean]
      exact hstart

theorem FlushInv.resume (h : resume s i = .ok s') : FlushInv s' := by
  unfold Sqljs.resume at h
  split at h
  · rename_i other hp
    obtain ⟨f, hf, hphase⟩ := phase_eq_some hp
    simp only [bind_eq_ok, pure_eq_ok] at h
    obtain ⟨_, _, rfl⟩ := h
    exact hinv.startExport hf (by simp [hphase, FlushPhase.carries])
  · cases h

theorem FlushInv.exportSkipped (h : exportSkipped s i = .ok s') :
    FlushInv s' := by
  unfold Sqljs.exportSkipped at h
  split at h
  · rename_i hp
    obtain ⟨f, hf, hphase⟩ := phase_eq_some hp
    cases h
    have hcalled := (hinv.flush_ok i f hf).1
    exact hinv.setPhase hf s.sqljsDirty ⟨hcalled, nofun⟩ (fun _ => .inl rfl)
  · cases h

theorem FlushInv.settleExport (h : settleExport s i = .ok s') :
    FlushInv s' := by
  unfold Sqljs.settleExport at h
  split at h
  · rename_i ok hp
    obtain ⟨f, hf, hphase⟩ := phase_eq_some hp
    cases h
    have hok := hinv.flush_ok i f hf
    simp only [FlushOk, hphase] at hok
    refine hinv.setPhase hf _ hok (fun hd => .inr ?_)
    -- the mark stays clear only when the export succeeded, and then the flush carried nothing
    have hd : s.sqljsDirty = false ∧ ok = true := by simpa using hd
    exact ⟨hd.1, by simp [hphase, FlushPhase.carries, hd.2]⟩
  · cases h

theorem FlushInv.finishFlush (h : finishFlush s i = .ok s') :
    FlushInv s' := by
  unfold Sqljs.finishFlush at h
  split at h
  · rename_i ok hp
    obtain ⟨f, hf, hphase⟩ := phase_eq_some hp
    cases h
    have hok := hinv.flush_ok i f hf
    simp only [FlushOk, hphase] at hok
    have hdone : FlushOk s i { f with phase := if ok then .returned true else .threw } := by
      cases ok with
      | false => exact ⟨hok.1, trivial⟩
      | true => exact ⟨hok.1, hok.2, fun _ => rfl⟩
    have hmoved := hinv.setPhase hf s.sqljsDirty hdone
      (fun hd => .inr ⟨hd, by simp [hphase, FlushPhase.carries]⟩)
    exact hmoved.flags _ _ _ id
  · cases h

end

/-! ## The file write -/

/-- `s` has no file write in progress. -/
def NotWriting (s : FlushState D) : Prop :=
  ∀ (i : Nat) (f : Flush D), s.flushes[i]? = some f → ∀ image number restoreFailed,
    f.phase ≠ .writing image number restoreFailed

section

variable (hinv : FlushInv s)
include hinv

/-- A flush that writes is the one `sqljsFileWrites` names. -/
theorem FlushInv.writer_eq (hf : s.flushes[i]? = some f) {image : D}
    {number : Nat} {restoreFailed : Bool} (hp : f.phase = .writing image number restoreFailed) :
    s.sqljsFileWrites = some ⟨i, false⟩ := by
  have hok := (hinv.flush_ok i f hf).2
  simp only [hp] at hok
  exact hok.1

theorem FlushInv.notWriting (hw : s.sqljsFileWrites.all (·.done) = true) :
    NotWriting s := by
  intro i f hf image number restoreFailed hp
  rw [hinv.writer_eq hf hp] at hw
  cases hw

/-- Between two file writes the entry of `sqljsFileWrites` does not matter. -/
theorem FlushInv.fileWrites (hidle : NotWriting s) (w : Option FileWrite) :
    FlushInv { s with sqljsFileWrites := w } where
  mem_eq := hinv.mem_eq
  file_eq := hinv.file_eq
  fileAt_le := hinv.fileAt_le
  flush_ok := by
    intro j g hg
    have hok := hinv.flush_ok j g hg
    refine ⟨hok.1, ?_⟩
    have hphase := hok.2
    cases hp : g.phase with
    | writing image number failed => exact (hidle j g hg _ _ _ hp).elim
    | exported | settled | returned =>
      simp only [hp] at hphase
      exact hphase
    | awaiting | exporting | threw => trivial
  clean := hinv.clean

theorem FlushInv.takeSnapshot {foreignKeysOk restoreFailed : Bool}
    (h : takeSnapshot s i foreignKeysOk restoreFailed = .ok s') : FlushInv s' := by
  unfold Sqljs.takeSnapshot at h
  split at h
  · rename_i hp
    obtain ⟨f, hf, hphase⟩ := phase_eq_some hp
    simp only [bind_eq_ok, require_eq_ok, pure_eq_ok] at h
    obtain ⟨_, hw, _, _, rfl⟩ := h
    have hcalled := (hinv.flush_ok i f hf).1
    split
    · have hinv' := hinv.fileWrites (hinv.notWriting hw) (some ⟨i, false⟩)
      exact hinv'.setPhase hf false
        ⟨hcalled, rfl, hinv.mem_eq, hinv.fileAt_le, Nat.le_refl _, hcalled⟩ (fun _ => .inl rfl)
    · exact hinv.setPhase hf false ⟨hcalled, by rintro ⟨⟩⟩ (fun _ => .inl rfl)
  · cases h

/-- The image the flush `i` writes has arrived in the file. -/
theorem FlushInv.fileWritten (hf : s.flushes[i]? = some f) {image : D}
    {number : Nat} {restoreFailed : Bool} (hp : f.phase = .writing image number restoreFailed) :
    FlushInv { s with file := image, fileAt := number } := by
  have hwriter := hinv.flush_ok i f hf
  simp only [FlushOk, hp] at hwriter
  obtain ⟨_, hentry, himage, hnewer, hle, _⟩ := hwriter
  refine ⟨hinv.mem_eq, himage, hle, ?_, ?_⟩
  · intro j g hg
    have hok := hinv.flush_ok j g hg
    refine ⟨hok.1, ?_⟩
    have hphase := hok.2
    cases hpg : g.phase with
    | writing image' number' failed =>
      -- only `i` writes, so this is `i` itself
      have hsame : j = i := by
        have := (hinv.writer_eq hg hpg).symm.trans hentry
        simpa using this
      subst hsame
      have : f = g := Option.some.inj (hf.symm.trans hg)
      subst this
      rw [hp] at hpg
      simp only [FlushPhase.writing.injEq] at hpg
      simp only [hp] at hphase
      obtain ⟨rfl, rfl, rfl⟩ := hpg
      exact ⟨hphase.1, hphase.2.1, Nat.le_refl _, hphase.2.2.2⟩
    | exported ok | settled ok =>
      simp only [hpg] at hphase
      exact fun h => Nat.le_trans (hphase h) hnewer
    | returned saved =>
      simp only [hpg] at hphase
      exact ⟨fun h => Nat.le_trans (hphase.1 h) hnewer, hphase.2⟩
    | awaiting | exporting | threw => trivial
  · intro hd
    rcases hinv.clean hd with hall | hcarry
    · exact .inl (Nat.le_antisymm hle (hall ▸ hnewer))
    · exact .inr hcarry

theorem FlushInv.writeSettled {ok : Bool} (h : writeSettled s i ok = .ok s') : FlushInv s' := by
  unfold Sqljs.writeSettled at h
  split at h
  · rename_i image number restoreFailed hp
    obtain ⟨f, hf, hphase⟩ := phase_eq_some hp
    cases h
    have hcalled := (hinv.flush_ok i f hf).1
    have hentry := hinv.writer_eq hf hphase
    -- once `i` has left the phase `writing`, no flush is in it
    have hidle : ∀ ok', NotWriting (s.setPhase i (.exported ok')) := by
      intro ok' j g hg image' number' failed hpg
      rcases getElem?_modify_cases hg with ⟨_, _, _, rfl⟩ | ⟨hne, hg⟩
      · cases hpg
      · have := (hinv.writer_eq hg hpg).symm.trans hentry
        simp only [Option.some.injEq, FileWrite.mk.injEq] at this
        exact hne this.1.symm
    split
    · have hwritten := hinv.fileWritten hf hphase
      have hnumber : f.calledAt ≤ number := by
        have hok := (hinv.flush_ok i f hf).2
        simp only [hphase] at hok
        exact hok.2.2.2.2
      have hmoved := hwritten.setPhase hf s.sqljsDirty (p := .exported (!restoreFailed))
        ⟨hcalled, fun _ => hnumber⟩ (fun hd => .inr ⟨hd, by simp [hphase, FlushPhase.carries]⟩)
      exact hmoved.fileWrites (hidle _) _
    · have hmoved := hinv.setPhase hf s.sqljsDirty (p := .exported false)
        ⟨hcalled, nofun⟩ (fun _ => .inl rfl)
      exact hmoved.fileWrites (hidle _) _
  · cases h

/-! ## Runs -/

/-- Every step of the flush keeps the invariant. -/
theorem FlushInv.run {a : FlushAction D} (h : a.run s = .ok s') :
    FlushInv s' := by
  cases a with
  | statement st => exact hinv.statement h
  | statementFails rolledBack =>
    cases h
    exact hinv.flags _ _ _ id
  | flush force holdsTurn =>
    cases h
    exact hinv.flush force holdsTurn
  | resume i => exact hinv.resume h
  | takeSnapshot i foreignKeysOk restoreFailed => exact hinv.takeSnapshot h
  | exportSkipped i => exact hinv.exportSkipped h
  | writeSettled i ok => exact hinv.writeSettled h
  | settleExport i => exact hinv.settleExport h
  | finishFlush i => exact hinv.finishFlush h

end

theorem flushInv_reachable (h : (flushSystem D).Reachable s) : FlushInv s := by
  refine h.invariant ?_ ?_
  · rintro s ⟨file, rfl⟩
    exact flushInv_boot file
  · intro s a s' _ hinv hstep
    exact hinv.run hstep

/-! ## What a step keeps -/

/-- A step that commits nothing keeps the committed images, does not put an older image in the
    file, and keeps what the flushes were called with. -/
structure FlushKept (s s' : FlushState D) : Prop where
  log_eq : s'.log = s.log
  commits_eq : s'.commits = s.commits
  fileAt_le : s.fileAt ≤ s'.fileAt
  flushes_kept : ∀ (i : Nat) (f : Flush D), s.flushes[i]? = some f →
    ∃ f' : Flush D, s'.flushes[i]? = some f' ∧ f'.force = f.force ∧ f'.calledAt = f.calledAt

/-- Moving one flush to another phase, whatever happens to flags and file. -/
theorem flushKept_setPhase (hlog : s'.log = s.log)
    (hcommits : s'.commits = s.commits) (hfile : s.fileAt ≤ s'.fileAt)
    (hflushes : s'.flushes = (s.setPhase i p).flushes) : FlushKept s s' := by
  refine ⟨hlog, hcommits, hfile, ?_⟩
  intro j f hf
  rw [hflushes]
  by_cases hij : i = j
  · subst hij
    exact ⟨_, getElem?_modify_self hf, rfl, rfl⟩
  · exact ⟨f, (getElem?_modify_other hij).trans hf, rfl, rfl⟩

theorem flushKept_of_eq (hlog : s'.log = s.log) (hcommits : s'.commits = s.commits)
    (hfile : s'.fileAt = s.fileAt) (hflushes : s'.flushes = s.flushes) : FlushKept s s' :=
  ⟨hlog, hcommits, Nat.le_of_eq hfile.symm, fun _ f hf => ⟨f, hflushes ▸ hf, rfl, rfl⟩⟩

theorem flushKept_called (force holdsTurn : Bool) (phase : FlushPhase D) :
    FlushKept s (s.called force holdsTurn phase) := by
  refine ⟨rfl, rfl, Nat.le_refl _, ?_⟩
  intro j f hf
  have hj : j < s.flushes.length := lt_of_getElem? hf
  exact ⟨f, by rw [FlushState.called, List.getElem?_append_left hj, hf], rfl, rfl⟩

theorem FlushKept.trans {s'' : FlushState D} (h₁ : FlushKept s s') (h₂ : FlushKept s' s'') :
    FlushKept s s'' := by
  refine ⟨h₂.log_eq.trans h₁.log_eq, h₂.commits_eq.trans h₁.commits_eq,
    Nat.le_trans h₁.fileAt_le h₂.fileAt_le, ?_⟩
  intro i f hf
  obtain ⟨f', hf', hforce, hcalled⟩ := h₁.flushes_kept i f hf
  obtain ⟨f'', hf'', hforce', hcalled'⟩ := h₂.flushes_kept i f' hf'
  exact ⟨f'', hf'', hforce'.trans hforce, hcalled'.trans hcalled⟩

/-- A call of `flushSqljs` is a new flush, last in the list. -/
theorem flushSqljs_kept (force holdsTurn : Bool) :
    FlushKept s (flushSqljs s force holdsTurn) ∧
      ∃ phase, (flushSqljs s force holdsTurn).flushes[s.flushes.length]? =
        some ⟨force, holdsTurn, s.commits, phase⟩ := by
  have hcalled : ∀ phase, FlushKept s (s.called force holdsTurn phase) ∧
      (s.called force holdsTurn phase).flushes[s.flushes.length]? =
        some ⟨force, holdsTurn, s.commits, phase⟩ :=
    fun phase => ⟨flushKept_called force holdsTurn phase, List.getElem?_concat_length⟩
  have hstart : FlushKept s
      (Sqljs.startExport (s.called force holdsTurn .exporting) s.flushes.length) ∧
      (Sqljs.startExport (s.called force holdsTurn .exporting) s.flushes.length).flushes[
        s.flushes.length]? = some ⟨force, holdsTurn, s.commits, .exporting⟩ := by
    obtain ⟨hkept, hlast⟩ := hcalled .exporting
    exact ⟨hkept.trans (flushKept_setPhase (i := s.flushes.length) (p := .exporting) rfl rfl
      (Nat.le_refl _) rfl), getElem?_modify_self hlast⟩
  unfold flushSqljs
  split <;> split
  · exact ⟨(hcalled _).1, _, (hcalled _).2⟩
  · split
    · exact ⟨(hcalled _).1, _, (hcalled _).2⟩
    · exact ⟨hstart.1, _, hstart.2⟩
  · exact ⟨(hcalled _).1, _, (hcalled _).2⟩
  · exact ⟨hstart.1, _, hstart.2⟩

theorem statement_kept {st : Statement D} (hc : (FlushAction.statement st).commits s = false)
    (h : afterQuery st <$> execute s st = .ok s') : FlushKept s s' := by
  cases st with
  | select | pragma =>
    cases h
    exact flushKept_of_eq rfl rfl rfl rfl
  | begin | rollback =>
    simp only [execute, except_map_eq_ok, bind_eq_ok, pure_eq_ok] at h
    obtain ⟨_, ⟨_, _, rfl⟩, rfl⟩ := h
    exact flushKept_of_eq rfl rfl rfl rfl
  | write d =>
    have hopen : s.transactionOpen = true := by simpa [FlushAction.commits] using hc
    simp only [execute, hopen, if_true, except_map_eq_ok, Except.ok.injEq] at h
    obtain ⟨_, rfl, rfl⟩ := h
    exact flushKept_of_eq rfl rfl rfl rfl
  | commit d => cases hc

theorem FlushInv.run_kept {a : FlushAction D} (hinv : FlushInv s) (hc : a.commits s = false)
    (h : a.run s = .ok s') : FlushKept s s' := by
  cases a with
  | statement st => exact statement_kept hc h
  | statementFails rolledBack =>
    cases h
    exact flushKept_of_eq rfl rfl rfl rfl
  | flush force holdsTurn =>
    cases h
    exact (flushSqljs_kept force holdsTurn).1
  | resume i =>
    simp only [FlushAction.run, Sqljs.resume] at h
    split at h
    · simp only [bind_eq_ok, pure_eq_ok] at h
      obtain ⟨_, _, rfl⟩ := h
      exact flushKept_setPhase (i := i) (p := .exporting) rfl rfl (Nat.le_refl _) rfl
    · cases h
  | takeSnapshot i foreignKeysOk restoreFailed =>
    simp only [FlushAction.run, Sqljs.takeSnapshot] at h
    split at h
    · simp only [bind_eq_ok, pure_eq_ok] at h
      obtain ⟨_, _, _, _, rfl⟩ := h
      split
      · exact flushKept_setPhase (i := i) rfl rfl (Nat.le_refl _) rfl
      · exact flushKept_setPhase (i := i) rfl rfl (Nat.le_refl _) rfl
    · cases h
  | exportSkipped i =>
    simp only [FlushAction.run, Sqljs.exportSkipped] at h
    split at h
    · cases h
      exact flushKept_setPhase (i := i) rfl rfl (Nat.le_refl _) rfl
    · cases h
  | writeSettled i ok =>
    simp only [FlushAction.run, Sqljs.writeSettled] at h
    split at h
    · rename_i image number restoreFailed hp
      obtain ⟨f, hf, hphase⟩ := phase_eq_some hp
      cases h
      have hok := (hinv.flush_ok i f hf).2
      simp only [hphase] at hok
      split
      · exact flushKept_setPhase (i := i) rfl rfl hok.2.2.1 rfl
      · exact flushKept_setPhase (i := i) rfl rfl (Nat.le_refl _) rfl
    · cases h
  | settleExport i =>
    simp only [FlushAction.run, Sqljs.settleExport] at h
    split at h
    · cases h
      exact flushKept_setPhase (i := i) rfl rfl (Nat.le_refl _) rfl
    · cases h
  | finishFlush i =>
    simp only [FlushAction.run, Sqljs.finishFlush] at h
    split at h
    · cases h
      exact flushKept_setPhase (i := i) rfl rfl (Nat.le_refl _) rfl
    · cases h

/-- After a crash the newest image is the one in the file. -/
theorem FlushInv.crash (hinv : FlushInv s) : FlushInv s.crash where
  mem_eq := hinv.file_eq
  file_eq := hinv.file_eq
  fileAt_le := Nat.le_refl _
  flush_ok := by
    intro i f h
    cases h
  clean := fun _ => .inl rfl

/-! ## Main result -/

theorem FlushInv.file_eq_mem (hinv : FlushInv s) (hd : s.sqljsDirty = false)
    (hidle : ∀ f ∈ s.flushes, f.phase.exportInFlight = false) : s.file = s.mem := by
  rcases hinv.clean hd with hall | ⟨i, f, hf, hcarries⟩
  · rw [hinv.file_eq, hinv.mem_eq, hall]
  · have hf := hidle f (List.mem_of_getElem? hf)
    cases hp : f.phase <;> simp [hp, FlushPhase.carries, FlushPhase.exportInFlight] at hf hcarries

/-- A flush that returned after a forced call has written a commit no older than its call. -/
theorem FlushInv.forced_persisted (hinv : FlushInv s) (hf : f ∈ s.flushes)
    (hforce : f.force = true) {saved : Bool} (hp : f.phase = .returned saved) :
    f.calledAt ≤ s.fileAt := by
  obtain ⟨i, hi⟩ := List.getElem?_of_mem hf
  have hok := (hinv.flush_ok i f hi).2
  simp only [hp] at hok
  exact hok.1 (hok.2 hforce)

theorem FlushInv.one_writer (hinv : FlushInv s) {j : Nat} {g : Flush D}
    (hf : s.flushes[i]? = some f) (hg : s.flushes[j]? = some g)
    (hfw : f.phase.isWriting = true) (hgw : g.phase.isWriting = true) : i = j := by
  cases hpf : f.phase with
  | writing =>
    cases hpg : g.phase with
    | writing =>
      have hsame := (hinv.writer_eq hf hpf).symm.trans (hinv.writer_eq hg hpg)
      simpa using hsame
    | _ => simp [hpg, FlushPhase.isWriting] at hgw
  | _ => simp [hpf, FlushPhase.isWriting] at hfw

/-- In every reachable state: when the dirty mark is clear and no export is in flight, the
    file is the committed database; a forced flush that was called outside any turn and
    resolved has put an image in the file that includes every commit before the call; and at
    most one flush writes the file. -/
theorem flush_persists (h : (flushSystem D).Reachable s) :
    (s.sqljsDirty = false → (∀ f ∈ s.flushes, f.phase.exportInFlight = false) →
      s.file = s.mem) ∧
    (∀ f ∈ s.flushes, f.force = true → f.holdsTurn = false →
      ∀ saved, f.phase = .returned saved →
        f.calledAt ≤ s.fileAt ∧ s.fileAt ≤ s.commits ∧ s.file = s.log s.fileAt) ∧
    (∀ (i j : Nat) (f g : Flush D), s.flushes[i]? = some f → s.flushes[j]? = some g →
      f.phase.isWriting = true → g.phase.isWriting = true → i = j) := by
  have hinv := flushInv_reachable h
  refine ⟨fun hd hidle => hinv.file_eq_mem hd hidle, ?_, ?_⟩
  · intro f hf hforce _ saved hp
    exact ⟨hinv.forced_persisted hf hforce hp, hinv.fileAt_le, hinv.file_eq⟩
  · intro i j f g hf hg hfw hgw
    exact hinv.one_writer hf hg hfw hgw

/-- A write lands while a periodic flush writes the file; a forced flush waits it out and
    exports again. -/
def overlappingFlushes : List (FlushAction Nat) :=
  [.statement (.write 1), .flush false false, .takeSnapshot 0 true false, .statement (.write 2),
    .flush true false, .writeSettled 0 true, .settleExport 0, .finishFlush 0, .resume 1,
    .takeSnapshot 1 true false, .writeSettled 1 true, .settleExport 1, .finishFlush 1]

/-- The forced flush leaves the later write in the file. -/
theorem flush_persists_overlap : ∃ s, (flushSystem Nat).Reachable s ∧
    s.mem = 2 ∧ s.sqljsDirty = false ∧ s.file = s.mem := by
  obtain ⟨s, hpath, hs⟩ := Transition.exists_path_of_run (M := flushSystem Nat)
    (fun s a t (h : FlushAction.run s a = .ok t) => h) (.boot 0) overlappingFlushes
    (fun s => s.mem == 2 && !s.sqljsDirty && s.flushes.all (!·.phase.exportInFlight))
    (by decide)
  have hboot : (flushSystem Nat).init (.boot 0) := ⟨0, rfl⟩
  have hreach : (flushSystem Nat).Reachable s := (Transition.Reachable.init hboot).path hpath
  simp only [Bool.and_eq_true, beq_iff_eq, Bool.not_eq_true', List.all_eq_true] at hs
  obtain ⟨⟨hmem, hclean⟩, hidle⟩ := hs
  exact ⟨s, hreach, hmem, hclean, (flush_persists hreach).1 hclean hidle⟩

end WorkflowBoard.Sqljs
