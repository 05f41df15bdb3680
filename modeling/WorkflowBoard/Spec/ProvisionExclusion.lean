import WorkflowBoard.ForStd.List
import WorkflowBoard.Native.ProvisionLock

/-!
# The provisioning lock excludes (`withProvisionDirectoryLock`)

Whatever the processes do, suspend or crash: at most one call of a live process is in `fn`. The
argument is that of a write followed by a listing. The file of a live call stays from its write to
its own release, because nobody else unlinks it: names are not used twice, and a stale name is
unlinked only after its process was found dead. So of two calls the later one sees the file of the
earlier one in its listing, in whichever directory it has published.
-/

namespace WorkflowBoard.AgentManager

/-! ## Owner names -/

/-- The process in an owner's name is the one that drew it. -/
theorem ownerPid?_ownerName {pid p : Nat} {token : String}
    (h : ownerPid? (ownerName pid token) = some p) : p = pid := by
  have hdigit : ∀ c ∈ Nat.toDigits 10 pid, c.isDigit = true :=
    fun c hc => Nat.isDigit_of_mem_toDigits (by decide) (by decide) hc
  have hlist : (ownerName pid token).toList =
      "owner-".toList ++ (Nat.toDigits 10 pid ++ '-' :: (token.toList ++ ".json".toList)) := by
    simp [ownerName, Nat.toList_repr]
  have hprefix : ("owner-".toList ++ (Nat.toDigits 10 pid ++
      '-' :: (token.toList ++ ".json".toList))).dropPrefix? "owner-".toList =
        some (Nat.toDigits 10 pid ++ '-' :: (token.toList ++ ".json".toList)) := by
    simp [List.dropPrefix?]
  have htake : (Nat.toDigits 10 pid ++ '-' :: (token.toList ++ ".json".toList)).takeWhile
      Char.isDigit = Nat.toDigits 10 pid := by
    rw [List.takeWhile_append_of_pos hdigit, List.takeWhile_cons_of_neg (by decide),
      List.append_nil]
  have hdrop : (Nat.toDigits 10 pid ++ '-' :: (token.toList ++ ".json".toList)).dropWhile
      Char.isDigit = '-' :: (token.toList ++ ".json".toList) := by
    rw [List.dropWhile_append_of_pos hdigit, List.dropWhile_cons_of_neg (by decide)]
  unfold ownerPid? at h
  rw [hlist, hprefix] at h
  simp only [htake, hdrop, Nat.ofDigitChars_ten_toDigits] at h
  split at h
  · exact (Option.some.inj h).symm
  · cases h

/-! ## The invariant -/

/-- The name of the call. -/
def LockPhase.own : LockPhase → Option String
  | .mkdir name | .write name | .list name | .withdraw name _ | .inside name | .release name =>
    some name
  | _ => none

/-- The name under which the call has published and not withdrawn. -/
def LockPhase.published : LockPhase → Option String
  | .list name | .inside name => some name
  | _ => none

/-- The names a recovery holds. -/
def LockPhase.seen : LockPhase → List String
  | .examine names => names
  | .probe name _ rest => name :: rest
  | .unlinkStale name rest => name :: rest
  | .rmdirStale rest => rest
  | _ => []

/-- The name a recovery is about to unlink. -/
def LockPhase.target : LockPhase → Option String
  | .unlinkStale name _ => some name
  | _ => none

def LockPhase.isInside : LockPhase → Bool
  | .inside _ => true
  | _ => false

/-- The directory has a file of this name. -/
def Published (dir : Option LockDir) (name : String) : Prop :=
  ∃ d, dir = some d ∧ ∃ f ∈ d.files, f.name = name

structure LockInv (s : LockState) : Prop where
  bound : ∀ c ∈ s.calls, c.process < s.processes.length
  files : ∀ d, s.dir = some d → ∀ f ∈ d.files, f.name ∈ s.drawn
  own : ∀ c ∈ s.calls, ∀ name, c.phase.own = some name → name ∈ s.drawn ∧
    ∃ p token, s.processes[c.process]? = some p ∧ name = ownerName p.pid token
  distinct : ∀ (i j : Nat) (c d : LockCall), s.calls[i]? = some c → s.calls[j]? = some d →
    ∀ name, c.phase.own = some name → d.phase.own = some name → i = j
  seen : ∀ c ∈ s.calls, ∀ name ∈ c.phase.seen, name ∈ s.drawn
  probed : ∀ c ∈ s.calls, ∀ name pid rest, c.phase = .probe name pid rest →
    ownerPid? name = some pid
  published : ∀ c ∈ s.calls, s.isAlive c = true → ∀ name, c.phase.published = some name →
    Published s.dir name
  target : ∀ c ∈ s.calls, ∀ name, c.phase.target = some name →
    ∀ d ∈ s.calls, s.isAlive d = true → d.phase.own ≠ some name
  exclusive : ∀ (i j : Nat) (c d : LockCall), s.calls[i]? = some c → s.calls[j]? = some d →
    s.isAlive c = true → s.isAlive d = true → c.phase.isInside = true → d.phase.isInside = true →
    i = j

theorem LockPhase.own_of_published {phase : LockPhase} {name : String}
    (h : phase.published = some name) : phase.own = some name := by
  cases phase <;> first | exact h | cases h

theorem LockPhase.published_of_inside {phase : LockPhase} (h : phase.isInside = true) :
    ∃ name, phase.published = some name := by
  cases phase <;> first | exact ⟨_, rfl⟩ | cases h

theorem LockPhase.quiet_of_own {phase : LockPhase} (h : phase.own = none) :
    phase.published = none ∧ phase.isInside = false := by
  cases phase <;> first | exact ⟨rfl, rfl⟩ | cases h

theorem LockPhase.seen_of_target {phase : LockPhase} {name : String}
    (h : phase.target = some name) : name ∈ phase.seen ∧ phase.own = none := by
  cases phase with
  | unlinkStale n rest =>
    cases h
    exact ⟨List.mem_cons_self, rfl⟩
  | _ => cases h

section Rules

variable {s : LockState} {i : Nat} {c : LockCall}

/-- The rule for a step of one call. It has its own name from before or a fresh one; it leaves
    what others have published, and names a target only if no live call has that name. -/
theorem LockInv.step (h : LockInv s) (hc : s.calls[i]? = some c) (c' : LockCall)
    (dir : Option LockDir) (drawn : List String) (hprocess : c'.process = c.process)
    (hdrawn : ∀ name ∈ s.drawn, name ∈ drawn)
    (hfiles : ∀ d, dir = some d → ∀ f ∈ d.files, f.name ∈ drawn)
    (hown : ∀ name, c'.phase.own = some name → c.phase.own = some name ∨
      (name ∉ s.drawn ∧ name ∈ drawn ∧
        ∃ p token, s.processes[c.process]? = some p ∧ name = ownerName p.pid token))
    (hseen : ∀ name ∈ c'.phase.seen, name ∈ s.drawn)
    (hprobed : ∀ name pid rest, c'.phase = .probe name pid rest → ownerPid? name = some pid)
    (hpublished : ∀ name, c'.phase.published = some name → Published dir name)
    (hkeep : ∀ (j : Nat) (d : LockCall), j ≠ i → s.calls[j]? = some d → s.isAlive d = true →
      ∀ name, d.phase.published = some name → Published dir name)
    (htarget : ∀ name, c'.phase.target = some name →
      ∀ d ∈ s.calls, s.isAlive d = true → d.phase.own ≠ some name)
    (hinside : c'.phase.isInside = true → c.phase.isInside = true ∨
      ∀ (j : Nat) (d : LockCall), j ≠ i → s.calls[j]? = some d → s.isAlive d = true →
        d.phase.isInside = false) :
    LockInv { s with dir, drawn, calls := s.calls.set i c' } := by
  have hmem : c ∈ s.calls := List.mem_of_getElem? hc
  have hold : ∀ d ∈ s.calls.set i c', d ∈ s.calls ∨ d = c' := fun d hd =>
    List.mem_or_eq_of_mem_set hd
  have hwas : s.isAlive c' = true → s.isAlive c = true := by
    unfold LockState.isAlive
    rw [hprocess]
    exact id
  constructor
  · intro d hd
    obtain hd | rfl := hold d hd
    · exact h.bound d hd
    · rw [hprocess]
      exact h.bound c hmem
  · exact hfiles
  · intro d hd name hname
    obtain hd | rfl := hold d hd
    · obtain ⟨hin, hwho⟩ := h.own d hd name hname
      exact ⟨hdrawn _ hin, hwho⟩
    · obtain hsame | ⟨-, hnew, hwho⟩ := hown name hname
      · obtain ⟨hin, hwho⟩ := h.own c hmem name hsame
        rw [hprocess]
        exact ⟨hdrawn _ hin, hwho⟩
      · rw [hprocess]
        exact ⟨hnew, hwho⟩
  · -- a name from before is its call's own, and a fresh one is nobody else's
    have hfresh : ∀ (j : Nat) (d : LockCall), j ≠ i → s.calls[j]? = some d →
        ∀ name, d.phase.own = some name → c'.phase.own ≠ some name := by
      intro j d hji hd name hname hname'
      obtain hsame | ⟨hnew, -⟩ := hown name hname'
      · exact hji (h.distinct j i d c hd hc name hname hsame)
      · exact hnew (h.own d (List.mem_of_getElem? hd) name hname).1
    intro j k d e hd he name hdn hen
    change (s.calls.set i c')[j]? = some d at hd
    change (s.calls.set i c')[k]? = some e at he
    obtain ⟨rfl, rfl⟩ | ⟨hji, hj⟩ := getElem?_set_cases hd <;>
      obtain ⟨rfl, rfl⟩ | ⟨hki, hk⟩ := getElem?_set_cases he
    · rfl
    · exact absurd hdn (hfresh k e hki.symm hk name hen)
    · exact absurd hen (hfresh j d hji.symm hj name hdn)
    · exact h.distinct j k d e hj hk name hdn hen
  · intro d hd name hname
    obtain hd | rfl := hold d hd
    · exact hdrawn _ (h.seen d hd name hname)
    · exact hdrawn _ (hseen name hname)
  · intro d hd
    obtain hd | rfl := hold d hd
    · exact h.probed d hd
    · exact hprobed
  · intro d hd halive name hname
    obtain ⟨j, hj⟩ := List.getElem?_of_mem hd
    change (s.calls.set i c')[j]? = some d at hj
    obtain ⟨rfl, rfl⟩ | ⟨hji, hj⟩ := getElem?_set_cases hj
    · exact hpublished name hname
    · exact hkeep j d hji.symm hj halive name hname
  · intro d hd name hname e he halive hen
    obtain he' | rfl := hold e he
    · obtain hd' | rfl := hold d hd
      · exact h.target d hd' name hname e he' halive hen
      · exact htarget name hname e he' halive hen
    · -- a target was drawn before, so a fresh name is not one
      obtain hd' | rfl := hold d hd
      · obtain hsame | ⟨hnew, -⟩ := hown name hen
        · exact h.target d hd' name hname c hmem (hwas halive) hsame
        · exact hnew (h.seen d hd' name (LockPhase.seen_of_target hname).1)
      · rw [(LockPhase.seen_of_target hname).2] at hen
        cases hen
  · intro j k d e hd he hda hea hdi hei
    change (s.calls.set i c')[j]? = some d at hd
    change (s.calls.set i c')[k]? = some e at he
    obtain ⟨rfl, rfl⟩ | ⟨hji, hj⟩ := getElem?_set_cases hd <;>
      obtain ⟨rfl, rfl⟩ | ⟨hki, hk⟩ := getElem?_set_cases he
    · rfl
    · obtain hin | hnone := hinside hdi
      · exact h.exclusive i k c e hc hk (hwas hda) hea hin hei
      · rw [hnone k e hki.symm hk hea] at hei
        cases hei
    · obtain hin | hnone := hinside hei
      · exact h.exclusive j i d c hj hc hda (hwas hea) hdi hin
      · rw [hnone j d hji.symm hj hda] at hdi
        cases hdi
    · exact h.exclusive j k d e hj hk hda hea hdi hei

/-- The rule for a step of one call that touches neither the directory nor the names. -/
theorem LockInv.phase (h : LockInv s) (hc : s.calls[i]? = some c) (halive : s.isAlive c = true)
    (c' : LockCall) (hprocess : c'.process = c.process)
    (hown : ∀ name, c'.phase.own = some name → c.phase.own = some name)
    (hseen : ∀ name ∈ c'.phase.seen, name ∈ s.drawn)
    (hprobed : ∀ name pid rest, c'.phase = .probe name pid rest → ownerPid? name = some pid)
    (hpublished : ∀ name, c'.phase.published = some name → c.phase.published = some name)
    (htarget : ∀ name, c'.phase.target = some name →
      ∀ d ∈ s.calls, s.isAlive d = true → d.phase.own ≠ some name)
    (hinside : c'.phase.isInside = true → c.phase.isInside = true ∨
      ∀ (j : Nat) (d : LockCall), j ≠ i → s.calls[j]? = some d → s.isAlive d = true →
        d.phase.isInside = false) :
    LockInv { s with calls := s.calls.set i c' } :=
  h.step hc c' s.dir s.drawn hprocess (fun _ hn => hn) h.files
    (fun name hn => .inl (hown name hn)) hseen hprobed
    (fun name hn => h.published c (List.mem_of_getElem? hc) halive name (hpublished name hn))
    (fun _ d _ hd hda name hn => h.published d (List.mem_of_getElem? hd) hda name hn) htarget
    hinside

end Rules

/-! ## The file-system calls -/

section Calls

variable {s : LockState} {i : Nat} {c : LockCall} {name : String} {fault : Option FsFault}

@[simp] theorem not_published_none : ¬Published none name := by
  rintro ⟨d, hd, -⟩
  cases hd

theorem LockState.unlink_eq : s.unlink name fault =
    { s with dir := (s.unlink name fault).dir } := by
  unfold LockState.unlink
  split <;> rfl

theorem LockState.rmdir_eq : s.rmdir fault = { s with dir := (s.rmdir fault).dir } := by
  unfold LockState.rmdir
  split
  · split <;> rfl
  · rfl

theorem LockState.files_unlink {d : LockDir} (hd : (s.unlink name fault).dir = some d) :
    ∃ d', s.dir = some d' ∧ ∀ f ∈ d.files, f ∈ d'.files := by
  unfold LockState.unlink at hd
  split at hd
  · rename_i d' hd'
    cases hd
    exact ⟨d', hd', fun f hf => (List.mem_filter.mp hf).1⟩
  · exact ⟨d, hd, fun _ hf => hf⟩

theorem LockState.files_rmdir {d : LockDir} (hd : (s.rmdir fault).dir = some d) :
    s.dir = some d := by
  unfold LockState.rmdir at hd
  split at hd
  · split at hd
    · cases hd
    · exact hd
  · exact hd

theorem Published.unlink {other : String} (h : Published s.dir other) (hne : other ≠ name) :
    Published (s.unlink name fault).dir other := by
  unfold LockState.unlink
  split
  · rename_i d hd
    obtain ⟨d', hd', f, hf, rfl⟩ := h
    obtain rfl : d = d' := Option.some.inj (hd.symm.trans hd')
    exact ⟨_, rfl, f, List.mem_filter.mpr ⟨hf, by simpa using hne⟩, rfl⟩
  · exact h

theorem Published.rmdir (h : Published s.dir name) : Published (s.rmdir fault).dir name := by
  unfold LockState.rmdir
  split
  · rename_i d hd
    obtain ⟨d', hd', f, hf, rfl⟩ := h
    obtain rfl : d = d' := Option.some.inj (hd.symm.trans hd')
    rw [if_neg (List.ne_nil_of_mem hf)]
    exact ⟨d, hd, f, hf, rfl⟩
  · exact h

end Calls

/-! ## One step of a call -/

section Steps

variable {s t : LockState} {opts : ProvisionLockOptions} {i : Nat} {c : LockCall} {o : LockOutside}

/-- The phases in which a call has no name, holds no names and is not in `fn`. -/
def LockPhase.isIdle : LockPhase → Bool
  | .mkdirRoot | .draw | .withdrawDir _ | .releaseDir | .readdir | .statDir | .rmdirEmpty | .wait
  | .returned => true
  | _ => false

theorem LockPhase.isIdle_spec {phase : LockPhase} (h : phase.isIdle = true) :
    phase.own = none ∧ phase.seen = [] ∧ (∀ name pid rest, phase ≠ .probe name pid rest) ∧
      phase.published = none ∧ phase.target = none ∧ phase.isInside = false := by
  cases phase <;> first | exact ⟨rfl, rfl, by rintro _ _ _ ⟨⟩, rfl, rfl, rfl⟩ | cases h

section

variable (h : LockInv s)
include h

section

variable (hc : s.calls[i]? = some c)
include hc

/-- A call goes on to a phase in which it holds nothing. -/
theorem LockInv.idle (halive : s.isAlive c = true)
    {c' : LockCall} (hprocess : c'.process = c.process) (hidle : c'.phase.isIdle = true) :
    LockInv { s with calls := s.calls.set i c' } := by
  obtain ⟨hown, hseen, hprobe, hpublished, htarget, hinside⟩ := LockPhase.isIdle_spec hidle
  refine h.phase hc halive c' hprocess ?_ ?_ ?_ ?_ ?_ ?_
  · simp [hown]
  · simp [hseen]
  · exact fun name pid rest he => absurd he (hprobe name pid rest)
  · simp [hpublished]
  · simp [htarget]
  · simp [hinside]

/-- A call drops its own file and goes on to a phase in which it holds nothing. -/
theorem LockInv.dropOwn {name : String}
    (hname : c.phase.own = some name) {phase : LockPhase} (hidle : phase.isIdle = true)
    {fault : Option FsFault} : LockInv ((s.unlink name fault).goto i c phase) := by
  obtain ⟨hown, hseen, hprobe, hpublished, htarget, hinside⟩ := LockPhase.isIdle_spec hidle
  rw [LockState.unlink_eq]
  refine h.step hc { c with phase } _ _ rfl (fun _ hn => hn) ?_ ?_ ?_ ?_ ?_ ?_ ?_ ?_
  · intro d hd f hf
    obtain ⟨d', hd', hsub⟩ := LockState.files_unlink hd
    exact h.files d' hd' f (hsub f hf)
  · simp [hown]
  · simp [hseen]
  · exact fun name pid rest he => absurd he (hprobe name pid rest)
  · simp [hpublished]
  · -- every other published name is another one
    intro j d hji hd hda other hother
    refine (h.published d (List.mem_of_getElem? hd) hda other hother).unlink ?_
    rintro rfl
    exact hji (h.distinct j i d c hd hc other (LockPhase.own_of_published hother) hname)
  · simp [htarget]
  · simp [hinside]

/-- `rmdir` and a phase that holds no more names than before. -/
theorem LockInv.dropDir {phase : LockPhase}
    (hown : phase.own = none) (hseen : ∀ name ∈ phase.seen, name ∈ c.phase.seen)
    (hprobe : ∀ name pid rest, phase ≠ .probe name pid rest) (htarget : phase.target = none)
    {fault : Option FsFault} : LockInv ((s.rmdir fault).goto i c phase) := by
  obtain ⟨hnone, hinside⟩ := LockPhase.quiet_of_own hown
  rw [LockState.rmdir_eq]
  refine h.step hc { c with phase } _ _ rfl (fun _ hn => hn) ?_ ?_ ?_ ?_ ?_ ?_ ?_ ?_
  · exact fun d hd => h.files d (LockState.files_rmdir hd)
  · simp [hown]
  · exact fun name hn => h.seen c (List.mem_of_getElem? hc) name (hseen name hn)
  · exact fun name pid rest he => absurd he (hprobe name pid rest)
  · simp [hnone]
  · exact fun j d _ hd hda name hn =>
      (h.published d (List.mem_of_getElem? hd) hda name hn).rmdir
  · simp [htarget]
  · simp [hinside]

/-- A recovery goes on with names it already holds, or with none. -/
theorem LockInv.goOn (halive : s.isAlive c = true)
    {phase : LockPhase} (hown : phase.own = none) (hseen : ∀ name ∈ phase.seen, name ∈ s.drawn)
    (hprobed : ∀ name pid rest, phase = .probe name pid rest → ownerPid? name = some pid)
    (htarget : ∀ name, phase.target = some name →
      ∀ d ∈ s.calls, s.isAlive d = true → d.phase.own ≠ some name) :
    LockInv (s.goto i c phase) := by
  obtain ⟨hnone, hinside⟩ := LockPhase.quiet_of_own hown
  refine h.phase hc halive { c with phase } rfl ?_ hseen hprobed ?_ htarget ?_
  · simp [hown]
  · simp [hnone]
  · simp [hinside]

/-- A call goes on under the name it has, without entering. -/
theorem LockInv.keepOwn (halive : s.isAlive c = true)
    {phase : LockPhase} (hown : ∀ name, phase.own = some name → c.phase.own = some name)
    (hseen : phase.seen = []) (hprobe : ∀ name pid rest, phase ≠ .probe name pid rest)
    (hpublished : phase.published = none) (htarget : phase.target = none) :
    LockInv (s.goto i c phase) := by
  refine h.phase hc halive { c with phase } rfl hown ?_ ?_ ?_ ?_ ?_
  · simp [hseen]
  · exact fun name pid rest he => absurd he (hprobe name pid rest)
  · simp [hpublished]
  · simp [htarget]
  · intro hin
    obtain ⟨name, hn⟩ := LockPhase.published_of_inside hin
    rw [hpublished] at hn
    cases hn

theorem LockInv.withdraw (halive : s.isAlive c = true)
    {name : String} (hname : c.phase.own = some name) (throws : Bool) :
    LockInv (s.goto i c (.withdraw name throws)) := by
  refine h.keepOwn hc halive ?_ rfl (by rintro _ _ _ ⟨⟩) rfl rfl
  rintro _ ⟨⟩
  exact hname

theorem LockInv.draw {p : LockProcess} (hp : s.processes[c.process]? = some p) {token : String}
    (hfresh : ownerName p.pid token ∉ s.drawn) :
    LockInv ({ s with drawn := s.drawn ++ [ownerName p.pid token] }.goto i c
      (.mkdir (ownerName p.pid token))) := by
  have hsub : ∀ name ∈ s.drawn, name ∈ s.drawn ++ [ownerName p.pid token] :=
    fun _ hn => List.mem_append_left _ hn
  refine h.step hc { c with phase := .mkdir (ownerName p.pid token) } _ _ rfl hsub
    (fun d hd f hf => hsub _ (h.files d hd f hf)) ?_ ?_ ?_ ?_ ?_ ?_ ?_
  · rintro _ ⟨⟩
    exact .inr ⟨hfresh, by simp, p, token, hp, rfl⟩
  · rintro _ ⟨⟩
  · rintro _ _ _ ⟨⟩
  · rintro _ ⟨⟩
  · exact fun j d _ hd hda name hn => h.published d (List.mem_of_getElem? hd) hda name hn
  · rintro _ ⟨⟩
  · rintro ⟨⟩

section

variable (halive : s.isAlive c = true)
include halive

theorem LockInv.mkdirStep {name : String} (hphase : c.phase = .mkdir name)
    (fault : Option FsFault) : LockInv (s.mkdirStep i c name fault) := by
  unfold LockState.mkdirStep
  split
  · split <;> exact h.idle hc halive rfl rfl
  · exact h.idle hc halive rfl rfl
  · exact h.idle hc halive rfl rfl
  · exact h.idle hc halive rfl rfl
  · -- the directory was not there, so nobody had published
    rename_i hdir
    refine h.step hc { c with mkdirRetries := 0, phase := .write name } _ _ rfl
      (fun _ hn => hn) ?_ ?_ ?_ ?_ ?_ ?_ ?_ ?_
    · rintro d ⟨⟩ f hf
      cases hf
    · rintro _ ⟨⟩
      exact .inl (by rw [hphase]; rfl)
    · rintro _ ⟨⟩
    · rintro _ _ _ ⟨⟩
    · rintro _ ⟨⟩
    · intro j d _ hd hda other hother
      have hpub := h.published d (List.mem_of_getElem? hd) hda other hother
      rw [hdir] at hpub
      exact absurd hpub not_published_none
    · rintro _ ⟨⟩
    · rintro ⟨⟩

theorem LockInv.writeStep {name : String} (hphase : c.phase = .write name)
    (fault : Option FsFault) : LockInv (s.writeStep i c name fault) := by
  have hname : c.phase.own = some name := by rw [hphase]; rfl
  unfold LockState.writeStep
  split
  · exact h.withdraw hc halive hname false
  · exact h.withdraw hc halive hname true
  · exact h.withdraw hc halive hname true
  · exact h.withdraw hc halive hname false
  · exact h.withdraw hc halive hname false
  · rename_i fault _ _ d _ _ _ hdir
    split
    · exact h.withdraw hc halive hname false
    · -- the file is there, and so are all the others
      have hgrow : ∀ other, (other = name ∨ Published s.dir other) →
          Published (some ⟨d.files ++ [⟨name, s.now⟩], s.now⟩) other := by
        rintro other (rfl | ⟨d', hd', f, hf, rfl⟩)
        · exact ⟨_, rfl, ⟨other, s.now⟩, by simp, rfl⟩
        · obtain rfl : d = d' := Option.some.inj (hdir.symm.trans hd')
          exact ⟨_, rfl, f, List.mem_append_left _ hf, rfl⟩
      refine h.step hc { c with
          phase := if fault = none then .list name else .withdraw name true } _ _ rfl
        (fun _ hn => hn) ?_ ?_ ?_ ?_ ?_ ?_ ?_ ?_
      · rintro d' ⟨⟩ f hf
        obtain hf | hf := List.mem_append.mp hf
        · exact h.files d hdir f hf
        · rw [List.mem_singleton.mp hf]
          exact (h.own c (List.mem_of_getElem? hc) name hname).1
      · intro other hother
        refine .inl ?_
        dsimp only at hother
        split at hother <;> exact hname.trans hother
      · intro other hother
        dsimp only at hother
        split at hother <;> cases hother
      · intro other pid rest he
        dsimp only at he
        split at he <;> cases he
      · intro other hother
        dsimp only at hother
        split at hother
        · cases hother
          exact hgrow name (.inl rfl)
        · cases hother
      · exact fun j e _ he hea other hother =>
          hgrow other (.inr (h.published e (List.mem_of_getElem? he) hea other hother))
      · intro other hother
        dsimp only at hother
        split at hother <;> cases hother
      · intro hin
        dsimp only at hin
        split at hin <;> cases hin

/-- A call enters if the listing shows its own file alone; a second call in `fn` would have
    published too. -/
theorem LockInv.listStep {name : String} (hphase : c.phase = .list name)
    (fault : Option FsFault) : LockInv (s.listStep i c name fault) := by
  have hname : c.phase.own = some name := by rw [hphase]; rfl
  unfold LockState.listStep
  split
  · exact h.withdraw hc halive hname false
  · exact h.withdraw hc halive hname false
  · exact h.withdraw hc halive hname true
  · rename_i d hdir
    split
    · rename_i halone
      refine h.phase hc halive { c with phase := .inside name } rfl ?_ ?_ ?_ ?_ ?_ ?_
      · rintro _ ⟨⟩
        exact hname
      · rintro _ ⟨⟩
      · rintro _ _ _ ⟨⟩
      · rintro _ ⟨⟩
        rw [hphase]
        rfl
      · rintro _ ⟨⟩
      · refine fun _ => .inr fun j e hji he hea => Bool.eq_false_iff.mpr fun hin => ?_
        obtain ⟨other, hother⟩ := LockPhase.published_of_inside hin
        obtain ⟨d', hd', f, hf, rfl⟩ := h.published e (List.mem_of_getElem? he) hea other hother
        obtain rfl : d = d' := Option.some.inj (hdir.symm.trans hd')
        have hsame : f.name = name := by
          have hmem : f.name ∈ d.files.map (·.name) := List.mem_map_of_mem hf
          rw [halone] at hmem
          exact List.mem_singleton.mp hmem
        rw [hsame] at hother
        exact hji (h.distinct j i e c he hc name (LockPhase.own_of_published hother) hname)
    · exact h.withdraw hc halive hname false

theorem LockInv.readdirStep (fault : Option FsFault) :
    LockInv (s.readdirStep i c fault) := by
  unfold LockState.readdirStep
  split
  · rename_i d hdir
    split
    · exact h.idle hc halive rfl rfl
    · refine h.goOn hc halive rfl ?_ (by rintro _ _ _ ⟨⟩) (by rintro _ ⟨⟩)
      intro name hn
      obtain ⟨f, hf, rfl⟩ := List.mem_map.mp hn
      exact h.files d hdir f hf
  · exact h.idle hc halive rfl rfl

theorem LockInv.statDirStep (fault : Option FsFault) :
    LockInv (s.statDirStep opts i c fault) := by
  unfold LockState.statDirStep
  split
  · split <;> exact h.idle hc halive rfl rfl
  · exact h.idle hc halive rfl rfl

theorem LockInv.examineStep {names : List String} (hphase : c.phase = .examine names)
    (fault : Option FsFault) : LockInv (s.examineStep opts i c names fault) := by
  have hseen : ∀ name ∈ names, name ∈ s.drawn := by
    have hall := h.seen c (List.mem_of_getElem? hc)
    rw [hphase] at hall
    exact hall
  have hrest : ∀ {name rest}, names = name :: rest → LockInv (s.goto i c (.examine rest)) := by
    rintro name rest rfl
    exact h.goOn hc halive rfl (fun n hn => hseen n (List.mem_cons_of_mem _ hn))
      (by rintro _ _ _ ⟨⟩) (by rintro _ ⟨⟩)
  unfold LockState.examineStep
  split
  · exact h.idle hc halive rfl rfl
  · rename_i name rest
    split
    · exact hrest rfl
    · rename_i pid hpid
      split
      · split
        · exact hrest rfl
        · refine h.goOn hc halive rfl hseen ?_ (by rintro _ ⟨⟩)
          rintro _ _ _ ⟨⟩
          exact hpid
      · exact h.idle hc halive rfl rfl

end

end

/-- A process that does not exist has no live call, so its name is no live call's. -/
theorem LockInv.probed_dead {name : String} {pid : Nat} (hpid : ownerPid? name = some pid)
    (hdead : ¬(s.processes.any fun p => p.alive && p.pid = pid) = true) (d : LockCall)
    (hd : d ∈ s.calls) (halive : s.isAlive d = true) : d.phase.own ≠ some name := by
  intro hown
  obtain ⟨-, p, token, hp, rfl⟩ := h.own d hd name hown
  refine hdead (List.any_eq_true.mpr ⟨p, List.mem_of_getElem? hp, ?_⟩)
  unfold LockState.isAlive at halive
  rw [hp] at halive
  have hpalive : p.alive = true := halive
  simp [hpalive, ownerPid?_ownerName hpid]

theorem LockInv.unlinkStale (hc : s.calls[i]? = some c) {name : String}
    {rest : List String} (hphase : c.phase = .unlinkStale name rest) (fault : Option FsFault) :
    LockInv ((s.unlink name fault).goto i c (.rmdirStale rest)) := by
  have hmem := List.mem_of_getElem? hc
  have hseen := h.seen c hmem
  have htarget := h.target c hmem name (by rw [hphase]; rfl)
  rw [hphase] at hseen
  rw [LockState.unlink_eq]
  refine h.step hc { c with phase := .rmdirStale rest } _ _ rfl (fun _ hn => hn)
    ?_ ?_ ?_ ?_ ?_ ?_ ?_ ?_
  · intro d hd f hf
    obtain ⟨d', hd', hsub⟩ := LockState.files_unlink hd
    exact h.files d' hd' f (hsub f hf)
  · rintro _ ⟨⟩
  · exact fun n hn => hseen n (List.mem_cons_of_mem _ hn)
  · rintro _ _ _ ⟨⟩
  · rintro _ ⟨⟩
  · intro j d _ hd hda other hother
    refine (h.published d (List.mem_of_getElem? hd) hda other hother).unlink ?_
    rintro rfl
    exact htarget d (List.mem_of_getElem? hd) hda (LockPhase.own_of_published hother)
  · rintro _ ⟨⟩
  · rintro ⟨⟩

theorem LockInv.advance (hc : s.calls[i]? = some c) (halive : s.isAlive c = true)
    (ht : s.advance opts i c o = .ok t) : LockInv t := by
  have hseen := h.seen c (List.mem_of_getElem? hc)
  unfold LockState.advance at ht
  split at ht
  case h_1 =>
    cases ht
    split <;> exact h.idle hc halive rfl rfl
  case h_2 =>
    split at ht
    · cases ht
    · rename_i p hp
      dsimp only at ht
      split at ht
      · cases ht
      · rename_i hfresh
        cases ht
        exact h.draw hc hp hfresh
  case h_3 name hphase =>
    cases ht
    exact h.mkdirStep hc halive hphase _
  case h_4 name hphase =>
    cases ht
    exact h.writeStep hc halive hphase _
  case h_5 name hphase =>
    cases ht
    exact h.listStep hc halive hphase _
  case h_6 name throws hphase =>
    cases ht
    exact h.dropOwn hc (by rw [hphase]; rfl) rfl
  case h_7 =>
    cases ht
    split <;> exact h.dropDir hc rfl (by rintro _ ⟨⟩) (by rintro _ _ _ ⟨⟩) rfl
  case h_8 name hphase =>
    cases ht
    refine h.keepOwn hc halive ?_ rfl (by rintro _ _ _ ⟨⟩) rfl rfl
    rintro _ ⟨⟩
    rw [hphase]
    rfl
  case h_9 name hphase =>
    cases ht
    exact h.dropOwn hc (by rw [hphase]; rfl) rfl
  case h_10 =>
    cases ht
    exact h.dropDir hc rfl (by rintro _ ⟨⟩) (by rintro _ _ _ ⟨⟩) rfl
  case h_11 =>
    cases ht
    exact h.readdirStep hc halive _
  case h_12 =>
    cases ht
    exact h.statDirStep hc halive _
  case h_13 =>
    cases ht
    exact h.dropDir hc rfl (by rintro _ ⟨⟩) (by rintro _ _ _ ⟨⟩) rfl
  case h_14 names hphase =>
    cases ht
    exact h.examineStep hc halive hphase _
  case h_15 name pid rest hphase =>
    rw [hphase] at hseen
    split at ht
    · split at ht
      · cases ht
      · rename_i hdead
        cases ht
        refine h.goOn hc halive rfl hseen (by rintro _ _ _ ⟨⟩) ?_
        rintro _ ⟨⟩
        exact h.probed_dead (h.probed c (List.mem_of_getElem? hc) name pid rest hphase) hdead
    · cases ht
      exact h.goOn hc halive rfl (fun n hn => hseen n (List.mem_cons_of_mem _ hn))
        (by rintro _ _ _ ⟨⟩) (by rintro _ ⟨⟩)
  case h_16 name rest hphase =>
    cases ht
    exact h.unlinkStale hc hphase _
  case h_17 rest hphase =>
    cases ht
    refine h.dropDir hc rfl ?_ (by rintro _ _ _ ⟨⟩) rfl
    rw [hphase]
    exact fun _ hn => hn
  case h_18 =>
    cases ht
    split <;> exact h.idle hc halive rfl rfl
  case h_19 => cases ht

end

end Steps

/-! ## Whole runs -/

section Runs

variable {s t : LockState} {opts : ProvisionLockOptions}

section

variable (h : LockInv s)
include h

theorem LockInv.touch (name : String) :
    LockInv { s with dir := s.dir.map fun d => { d with files := d.files.map fun f =>
      if f.name = name then { f with mtimeMs := s.now } else f } } := by
  have hname : ∀ f : OwnerFile,
      (if f.name = name then { f with mtimeMs := s.now } else f).name = f.name := by
    intro f
    split <;> rfl
  refine { h with files := ?_, published := ?_ }
  · intro d hd f hf
    obtain ⟨d', hd', rfl⟩ := Option.map_eq_some_iff.mp hd
    obtain ⟨f', hf', rfl⟩ := List.mem_map.mp hf
    rw [hname]
    exact h.files d' hd' f' hf'
  · intro e he hea other hother
    obtain ⟨d, hd, f, hf, rfl⟩ := h.published e he hea other hother
    exact ⟨_, by rw [hd]; rfl, _, List.mem_map_of_mem hf, hname f⟩

theorem LockInv.crash (p : Nat) :
    LockInv { s with processes := s.processes.modify p fun p => { p with alive := false } } := by
  have hpid : ∀ (k : Nat) (q : LockProcess), s.processes[k]? = some q →
      ∃ q', (s.processes.modify p fun p => { p with alive := false })[k]? = some q' ∧
        q'.pid = q.pid ∧ (q'.alive = true → q.alive = true) := by
    intro k q hq
    rw [List.getElem?_modify, hq]
    by_cases hk : p = k
    · exact ⟨_, rfl, by simp [hk], by simp [hk]⟩
    · exact ⟨_, rfl, by simp [hk], by simp [hk]⟩
  have hlive : ∀ c ∈ s.calls, LockState.isAlive
      { s with processes := s.processes.modify p fun p => { p with alive := false } } c = true →
      s.isAlive c = true := by
    intro c hc halive
    obtain ⟨q, hq⟩ : ∃ q, s.processes[c.process]? = some q :=
      ⟨_, List.getElem?_eq_getElem (h.bound c hc)⟩
    obtain ⟨q', hq', -, himp⟩ := hpid c.process q hq
    unfold LockState.isAlive at halive ⊢
    rw [hq'] at halive
    rw [hq]
    exact himp halive
  refine { h with bound := ?_, own := ?_, published := ?_, target := ?_, exclusive := ?_ }
  · intro c hc
    rw [List.length_modify]
    exact h.bound c hc
  · intro c hc name hname
    obtain ⟨hin, q, token, hq, rfl⟩ := h.own c hc name hname
    obtain ⟨q', hq', hsame, -⟩ := hpid _ _ hq
    exact ⟨hin, q', token, hq', by rw [hsame]⟩
  · exact fun c hc halive => h.published c hc (hlive c hc halive)
  · exact fun c hc name hname d hd halive => h.target c hc name hname d hd (hlive d hd halive)
  · exact fun j k c d hc hd hca hda => h.exclusive j k c d hc hd
      (hlive c (List.mem_of_getElem? hc) hca) (hlive d (List.mem_of_getElem? hd) hda)

/-- A new process has no call yet, whatever its number is. -/
theorem LockInv.spawn (p : LockProcess) :
    LockInv { s with processes := s.processes ++ [p] } := by
  have hget : ∀ c ∈ s.calls, (s.processes ++ [p])[c.process]? = s.processes[c.process]? :=
    fun c hc => List.getElem?_append_left (h.bound c hc)
  have hlive : ∀ c ∈ s.calls,
      LockState.isAlive { s with processes := s.processes ++ [p] } c = s.isAlive c := by
    intro c hc
    unfold LockState.isAlive
    rw [hget c hc]
  refine { h with bound := ?_, own := ?_, published := ?_, target := ?_, exclusive := ?_ }
  · intro c hc
    have hlt := h.bound c hc
    rw [List.length_append]
    omega
  · intro c hc name hname
    rw [hget c hc]
    exact h.own c hc name hname
  · intro c hc halive
    rw [hlive c hc] at halive
    exact h.published c hc halive
  · intro c hc name hname d hd halive
    rw [hlive d hd] at halive
    exact h.target c hc name hname d hd halive
  · intro j k c d hc hd hca hda
    rw [hlive c (List.mem_of_getElem? hc)] at hca
    rw [hlive d (List.mem_of_getElem? hd)] at hda
    exact h.exclusive j k c d hc hd hca hda

theorem LockInv.call {c : LockCall} (hphase : c.phase = .mkdirRoot)
    (halive : s.isAlive c = true) : LockInv { s with calls := s.calls ++ [c] } := by
  obtain ⟨hown, hseen, hprobe, hpublished, htarget, hinside⟩ :=
    LockPhase.isIdle_spec (by rw [hphase]; rfl : c.phase.isIdle = true)
  have hcases : ∀ d ∈ s.calls ++ [c], d ∈ s.calls ∨ d = c := fun d hd => by
    simpa using hd
  constructor
  · intro d hd
    obtain hd | rfl := hcases d hd
    · exact h.bound d hd
    · unfold LockState.isAlive at halive
      cases hp : s.processes[d.process]? with
      | none => rw [hp] at halive; cases halive
      | some p => exact List.getElem?_eq_some_iff.mp hp |>.1
  · exact h.files
  · intro d hd name hname
    obtain hd | rfl := hcases d hd
    · exact h.own d hd name hname
    · rw [hown] at hname
      cases hname
  · intro j k d e hd he name hdn hen
    obtain hd | ⟨-, rfl⟩ := getElem?_append_cases hd
    · obtain he | ⟨-, rfl⟩ := getElem?_append_cases he
      · exact h.distinct j k d e hd he name hdn hen
      · rw [hown] at hen
        cases hen
    · rw [hown] at hdn
      cases hdn
  · intro d hd name hname
    obtain hd | rfl := hcases d hd
    · exact h.seen d hd name hname
    · rw [hseen] at hname
      cases hname
  · intro d hd name pid rest he
    obtain hd | rfl := hcases d hd
    · exact h.probed d hd name pid rest he
    · exact absurd he (hprobe name pid rest)
  · intro d hd hda name hname
    obtain hd | rfl := hcases d hd
    · exact h.published d hd hda name hname
    · rw [hpublished] at hname
      cases hname
  · intro d hd name hname e he hea hen
    obtain he | rfl := hcases e he
    · obtain hd | rfl := hcases d hd
      · exact h.target d hd name hname e he hea hen
      · rw [htarget] at hname
        cases hname
    · rw [hown] at hen
      cases hen
  · intro j k d e hd he hda hea hdi hei
    obtain hd | ⟨-, rfl⟩ := getElem?_append_cases hd
    · obtain he | ⟨-, rfl⟩ := getElem?_append_cases he
      · exact h.exclusive j k d e hd he hda hea hdi hei
      · rw [hinside] at hei
        cases hei
    · rw [hinside] at hdi
      cases hdi

theorem LockInv.act {a : LockAction} (ht : s.act opts a = .ok t) : LockInv t := by
  cases a with
  | tick now =>
    cases ht
    exact { h with }
  | spawn pid =>
    cases ht
    exact h.spawn _
  | crash p =>
    cases ht
    exact h.crash p
  | call process =>
    simp only [LockState.act] at ht
    split at ht
    · rename_i halive
      cases ht
      exact h.call rfl halive
    · cases ht
  | advance i o =>
    simp only [LockState.act] at ht
    split at ht
    · cases ht
    · rename_i c hc
      split at ht
      · rename_i halive
        exact h.advance hc halive ht
      · cases ht
  | heartbeat i =>
    simp only [LockState.act] at ht
    split at ht
    · cases ht
    · split at ht
      · unfold LockState.heartbeat at ht
        split at ht
        · cases ht
          exact h.touch _
        · cases ht
          exact h.touch _
        · cases ht
      · cases ht

end

theorem lockInv_reachable (h : (lockSystem opts).Reachable s) : LockInv s := by
  refine h.invariant ?_ fun _ _ _ _ hs hst => hs.act hst
  rintro s ⟨hcalls, hfiles⟩
  constructor
  case files => exact hfiles
  all_goals simp [hcalls]

/-- At most one call of a live process is in `fn`. -/
theorem provision_exclusive (opts : ProvisionLockOptions) (s : LockState)
    (h : (lockSystem opts).Reachable s) :
    (s.calls.filter fun c => s.isAlive c && c.phase.isInside).length ≤ 1 := by
  have hinv := lockInv_reachable h
  refine length_filter_le_one fun i j c d hc hd hci hdi => ?_
  rw [Bool.and_eq_true] at hci hdi
  exact hinv.exclusive i j c d hc hd hci.1 hdi.1 hci.2 hdi.2

def twoProcesses : LockState where
  dir := none
  processes := [⟨41, true⟩, ⟨42, true⟩]
  calls := []
  now := 0
  drawn := []

/-- Of two calls one is in `fn` and the other one waits. -/
theorem provision_exclusive_twoProcesses :
    ∃ s, (lockSystem ⟨60000, 30000⟩).Reachable s ∧
      s.calls.map (·.phase) = [.inside "owner-41-a.json", .wait] ∧
      (s.calls.filter fun c => s.isAlive c && c.phase.isInside).length ≤ 1 := by
  have hrun : ∀ s a t, LockState.act ⟨60000, 30000⟩ s a = .ok t →
      (lockSystem ⟨60000, 30000⟩).step s a t := fun _ _ _ h => h
  obtain ⟨s, hpath, hs⟩ := Transition.exists_path_of_run hrun twoProcesses
    [.call 0, .call 1, .advance 0 {}, .advance 1 {}, .advance 0 { token := "a" },
      .advance 1 { token := "b" }, .advance 0 {}, .advance 1 {}, .advance 0 {}, .advance 0 {},
      .advance 1 {}, .advance 1 {}, .advance 1 {}]
    (fun s => s.calls.map (·.phase) = [.inside "owner-41-a.json", .wait]) (by decide +kernel)
  have hreach : (lockSystem ⟨60000, 30000⟩).Reachable s := .path (.init ⟨rfl, by rintro d ⟨⟩⟩) hpath
  exact ⟨s, hreach, of_decide_eq_true hs, provision_exclusive _ s hreach⟩

end Runs

end WorkflowBoard.AgentManager
