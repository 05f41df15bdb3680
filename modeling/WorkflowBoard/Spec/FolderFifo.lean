import WorkflowBoard.Native.FolderMutex

/-!
# The folder lock is first in, first out (`FolderMutex`)

The calls for one key form a chain: each found the one before it as the tail, or found the key
free, and then every earlier call was released. So a call is granted, and its tail settled, only
when every earlier call of its key is released. The entry of a key is its last call, as long as
that call is not released.
-/

namespace WorkflowBoard.AgentManager

namespace FolderMutex

/-! ## The invariant -/

/-- Every call for the key before call `i` is released. -/
def EarlierReleased (m : FolderMutex) (key : String) (i : Nat) : Prop :=
  ∀ (j : Nat) (h : RunLock), j < i → m.locks[j]? = some h → h.key = key → h.released = true

/-- No call for the key lies between `p` and `i`. -/
def NoneBetween (m : FolderMutex) (key : String) (p i : Nat) : Prop :=
  ∀ (j : Nat) (h : RunLock), p < j → j < i → m.locks[j]? = some h → h.key ≠ key

structure MutexInv (m : FolderMutex) : Prop where
  tail : ∀ key i, m.chain.get key = some i → ∃ h, m.locks[i]? = some h ∧ h.key = key ∧
    h.released = false ∧ m.NoneBetween key i m.locks.length
  busy : ∀ (i : Nat) (h : RunLock), m.locks[i]? = some h → h.released = false →
    m.chain.get h.key ≠ none
  prev : ∀ (i : Nat) (h : RunLock) (p : Nat), m.locks[i]? = some h → h.prev = some p →
    p < i ∧ (∃ hp, m.locks[p]? = some hp ∧ hp.key = h.key) ∧ m.NoneBetween h.key p i
  first : ∀ (i : Nat) (h : RunLock), m.locks[i]? = some h → h.prev = none →
    m.EarlierReleased h.key i
  granted : ∀ (i : Nat) (h : RunLock), m.locks[i]? = some h → h.granted = true →
    m.EarlierReleased h.key i
  settled : ∀ (i : Nat) (h : RunLock), m.locks[i]? = some h → h.settled = true →
    h.released = true ∧ m.EarlierReleased h.key i
  released : ∀ (i : Nat) (h : RunLock), m.locks[i]? = some h → h.released = true →
    h.granted = true

section Rules

variable {m m' : FolderMutex} {i j : Nat} {h h' g : RunLock} {key : String}

theorem lt_of_locks (hi : m.locks[i]? = some h) : i < m.locks.length :=
  lt_of_getElem? hi

section

variable (hinv : MutexInv m)
include hinv

section

variable (hi : m.locks[i]? = some h)
include hi

/-- Once its predecessor's tail is settled, nobody is before a call. -/
theorem MutexInv.earlier_of_prevSettled
    (hprev : m.prevSettled h = true) : m.EarlierReleased h.key i := by
  unfold prevSettled at hprev
  split at hprev
  · rename_i hnone
    exact hinv.first i h hi hnone
  · rename_i p hsome
    obtain ⟨hp, hget, hsettled⟩ := (Option.any_eq_true _ _).mp hprev
    obtain ⟨hlt, ⟨hp', hget', hkey⟩, hbetween⟩ := hinv.prev i h p hi hsome
    cases hget.symm.trans hget'
    obtain ⟨hreleased, hearlier⟩ := hinv.settled p hp hget hsettled
    intro j g hji hj hgkey
    obtain hjp | rfl | hpj := Nat.lt_trichotomy j p
    · exact hearlier j g hjp hj (hgkey.trans hkey.symm)
    · cases hget.symm.trans hj
      exact hreleased
    · exact absurd hgkey (hbetween j g hpj hji hj)

/-- The rule for a step that sets flags of one call. Its key and predecessor stay, and it is not
    taken back that it is released. -/
theorem MutexInv.set {chain : InsertMap String Nat}
    (hkey : h'.key = h.key) (hprev : h'.prev = h.prev)
    (hmono : h.released = true → h'.released = true)
    (htail : ∀ key j, chain.get key = some j → m.chain.get key = some j ∧
      (j = i → h'.released = false))
    (hbusy : ∀ (j : Nat) (g : RunLock), j ≠ i → m.locks[j]? = some g → g.released = false →
      chain.get g.key ≠ none)
    (hbusy' : h'.released = false → chain.get h.key ≠ none)
    (hgranted : h'.granted = true → m.EarlierReleased h.key i)
    (hsettled : h'.settled = true → h'.released = true ∧ m.EarlierReleased h.key i)
    (hreleased : h'.released = true → h'.granted = true) :
    MutexInv { chain, locks := m.locks.set i h' } := by
  have hold : ∀ (j : Nat) (g : RunLock), (m.locks.set i h')[j]? = some g →
      (j = i ∧ g = h') ∨ (j ≠ i ∧ m.locks[j]? = some g) := by
    intro j g hj
    obtain ⟨rfl, rfl⟩ | ⟨hne, hj⟩ := getElem?_set_cases hj
    · exact .inl ⟨rfl, rfl⟩
    · exact .inr ⟨hne.symm, hj⟩
  have hnew : ∀ (j : Nat) (g : RunLock), j ≠ i → m.locks[j]? = some g →
      (m.locks.set i h')[j]? = some g := fun j g hne hj => by
    rw [List.getElem?_set_ne hne.symm, hj]
  have hself : (m.locks.set i h')[i]? = some h' := by
    rw [List.getElem?_set_self (lt_of_locks hi)]
  have hearlier : ∀ {key k}, m.EarlierReleased key k →
      EarlierReleased { chain, locks := m.locks.set i h' } key k := by
    intro key k hall j g hjk hj hgkey
    obtain ⟨rfl, rfl⟩ | ⟨-, hj⟩ := hold j g hj
    · exact hmono (hall j h hjk hi (hkey ▸ hgkey))
    · exact hall j g hjk hj hgkey
  have hbetween : ∀ {key p k}, m.NoneBetween key p k →
      NoneBetween { chain, locks := m.locks.set i h' } key p k := by
    intro key p k hnone j g hpj hjk hj
    obtain ⟨rfl, rfl⟩ | ⟨-, hj⟩ := hold j g hj
    · rw [hkey]
      exact hnone j h hpj hjk hi
    · exact hnone j g hpj hjk hj
  constructor
  · intro key j hj
    obtain ⟨hchain, hopen⟩ := htail key j hj
    obtain ⟨g, hg, hgkey, hgopen, hlast⟩ := hinv.tail key j hchain
    have hlast' : NoneBetween { chain, locks := m.locks.set i h' } key j
        (m.locks.set i h').length := by
      rw [List.length_set]
      exact hbetween hlast
    by_cases hji : j = i
    · subst hji
      cases hi.symm.trans hg
      exact ⟨h', hself, hkey.trans hgkey, hopen rfl, hlast'⟩
    · exact ⟨g, hnew j g hji hg, hgkey, hgopen, hlast'⟩
  · intro j g hj hopen
    obtain ⟨rfl, rfl⟩ | ⟨hne, hj⟩ := hold j g hj
    · rw [hkey]
      exact hbusy' hopen
    · exact hbusy j g hne hj hopen
  · intro j g p hj hp
    have hpred : ∀ {key}, (∃ hp, m.locks[p]? = some hp ∧ hp.key = key) →
        ∃ hp, (m.locks.set i h')[p]? = some hp ∧ hp.key = key := by
      rintro key ⟨hp', hget, hpkey⟩
      by_cases hpi : p = i
      · subst hpi
        cases hi.symm.trans hget
        exact ⟨h', hself, hkey.trans hpkey⟩
      · exact ⟨hp', hnew p hp' hpi hget, hpkey⟩
    obtain ⟨rfl, rfl⟩ | ⟨-, hj⟩ := hold j g hj
    · rw [hprev] at hp
      obtain ⟨hlt, hget, hnone⟩ := hinv.prev j h p hi hp
      rw [hkey]
      exact ⟨hlt, hpred hget, hbetween hnone⟩
    · obtain ⟨hlt, hget, hnone⟩ := hinv.prev j g p hj hp
      exact ⟨hlt, hpred hget, hbetween hnone⟩
  · intro j g hj hnone
    obtain ⟨rfl, rfl⟩ | ⟨-, hj⟩ := hold j g hj
    · rw [hkey]
      exact hearlier (hinv.first j h hi (hprev ▸ hnone))
    · exact hearlier (hinv.first j g hj hnone)
  · intro j g hj hg
    obtain ⟨rfl, rfl⟩ | ⟨-, hj⟩ := hold j g hj
    · rw [hkey]
      exact hearlier (hgranted hg)
    · exact hearlier (hinv.granted j g hj hg)
  · intro j g hj hg
    obtain ⟨rfl, rfl⟩ | ⟨-, hj⟩ := hold j g hj
    · rw [hkey]
      exact ⟨(hsettled hg).1, hearlier (hsettled hg).2⟩
    · exact ⟨(hinv.settled j g hj hg).1, hearlier (hinv.settled j g hj hg).2⟩
  · intro j g hj hg
    obtain ⟨rfl, rfl⟩ | ⟨-, hj⟩ := hold j g hj
    · exact hreleased hg
    · exact hinv.released j g hj hg

/-! ## Steps -/

theorem MutexInv.settle (hprev : m.prevSettled h = true) (hreleased : h.released = true) :
    MutexInv { m with locks := m.locks.set i { h with settled := true } } := by
  have hearlier := hinv.earlier_of_prevSettled hi hprev
  refine hinv.set hi rfl rfl id (fun key j hj => ⟨hj, ?_⟩)
    (fun j g _ hj hg => hinv.busy j g hj hg) (fun hopen => hinv.busy i h hi hopen)
    (fun _ => hearlier) (fun _ => ⟨hreleased, hearlier⟩) (fun _ => hinv.released i h hi hreleased)
  rintro rfl
  obtain ⟨g, hg, -, hopen, -⟩ := hinv.tail key j hj
  cases hi.symm.trans hg
  exact hopen

theorem MutexInv.grant (hprev : m.prevSettled h = true) :
    MutexInv { m with locks := m.locks.set i { h with granted := true } } := by
  refine hinv.set hi rfl rfl id (fun key j hj => ⟨hj, ?_⟩)
    (fun j g _ hj hg => hinv.busy j g hj hg) (fun hopen => hinv.busy i h hi hopen)
    (fun _ => hinv.earlier_of_prevSettled hi hprev) (hinv.settled i h hi) (fun _ => rfl)
  rintro rfl
  obtain ⟨g, hg, -, hopen, -⟩ := hinv.tail key j hj
  cases hi.symm.trans hg
  exact hopen

/-- The entry of the key goes with its last call; a waiter that chained in between has replaced
    the entry and stays. -/
theorem MutexInv.release (hgranted : h.granted = true) : MutexInv (m.release i h) := by
  unfold FolderMutex.release
  split
  · exact hinv
  · have hearlier := hinv.granted i h hi hgranted
    refine hinv.set hi rfl rfl (fun _ => rfl) ?_ ?_ (fun hopen => absurd hopen (by simp))
      (fun _ => hearlier) (fun _ => ⟨rfl, hearlier⟩) (fun _ => hgranted)
    · intro key j hj
      split at hj
      · rename_i hlast
        by_cases hkey : key = h.key
        · subst hkey
          rw [InsertMap.get_delete_self] at hj
          cases hj
        · rw [InsertMap.get_delete_other hkey] at hj
          refine ⟨hj, ?_⟩
          rintro rfl
          obtain ⟨g, hg, hgkey, -⟩ := hinv.tail key j hj
          cases hi.symm.trans hg
          exact absurd hgkey.symm hkey
      · rename_i hlast
        refine ⟨hj, ?_⟩
        rintro rfl
        obtain ⟨g, hg, hgkey, -⟩ := hinv.tail key j hj
        cases hi.symm.trans hg
        exact absurd (hgkey ▸ hj) hlast
    · intro j g hji hj hopen
      split
      · rename_i hlast
        -- a call of the key is before the last one and released, so this one has another key
        have hne : g.key ≠ h.key := by
          intro hkey
          obtain hlt | hgt := Nat.lt_or_gt_of_ne hji
          · rw [hearlier j g hlt hj hkey] at hopen
            cases hopen
          · obtain ⟨_, -, -, -, hnone⟩ := hinv.tail h.key i hlast
            exact hnone j g hgt (lt_of_locks hj) hj hkey
        rw [InsertMap.get_delete_other hne]
        exact hinv.busy j g hj hopen
      · exact hinv.busy j g hj hopen

end

/-- A new call is behind all others; where it finds no entry, they are released. -/
theorem MutexInv.acquire (key : String) : MutexInv (m.acquire key) := by
  have hnew : (m.acquire key).locks = m.locks ++ [⟨key, m.chain.get key,
    (m.chain.get key).isNone, false, false⟩] := rfl
  have hchain : (m.acquire key).chain = m.chain.set key m.locks.length := rfl
  have hold : ∀ (j : Nat) (g : RunLock), (m.acquire key).locks[j]? = some g →
      m.locks[j]? = some g ∨ (j = m.locks.length ∧
        g = ⟨key, m.chain.get key, (m.chain.get key).isNone, false, false⟩) := by
    intro j g hj
    exact getElem?_append_cases (hnew ▸ hj)
  have hkept : ∀ (j : Nat) (g : RunLock), m.locks[j]? = some g →
      (m.acquire key).locks[j]? = some g := by
    intro j g hj
    rw [hnew, List.getElem?_append_left (lt_of_locks hj), hj]
  have hearlier : ∀ {key' i}, i ≤ m.locks.length → m.EarlierReleased key' i →
      (m.acquire key).EarlierReleased key' i := by
    intro key' i hle hall j g hji hj hgkey
    obtain hj | ⟨rfl, -⟩ := hold j g hj
    · exact hall j g hji hj hgkey
    · omega
  have hbetween : ∀ {key' p i}, i ≤ m.locks.length → m.NoneBetween key' p i →
      (m.acquire key).NoneBetween key' p i := by
    intro key' p i hle hnone j g hpj hji hj
    obtain hj | ⟨rfl, -⟩ := hold j g hj
    · exact hnone j g hpj hji hj
    · omega
  -- without an entry every earlier call for the key is released
  have hfree : m.chain.get key = none → m.EarlierReleased key m.locks.length := by
    intro hnone j g _ hj hgkey
    cases hopen : g.released with
    | true => rfl
    | false => exact absurd (hgkey ▸ hnone) (hinv.busy j g hj hopen)
  constructor
  · intro key' j hj
    rw [hchain] at hj
    by_cases hkey : key' = key
    · subst hkey
      rw [InsertMap.get_set_self] at hj
      cases hj
      refine ⟨_, by rw [hnew, List.getElem?_concat_length], rfl, rfl, ?_⟩
      intro j g hpj hji hj
      rw [hnew, List.length_append] at hji
      simp only [List.length_singleton] at hji
      omega
    · rw [InsertMap.get_set_other hkey] at hj
      obtain ⟨g, hg, hgkey, hopen, hnone⟩ := hinv.tail key' j hj
      refine ⟨g, hkept j g hg, hgkey, hopen, ?_⟩
      intro k g' hjk _ hk
      obtain hk | ⟨-, rfl⟩ := hold k g' hk
      · exact hnone k g' hjk (lt_of_locks hk) hk
      · exact fun h => hkey h.symm
  · intro j g hj hopen
    rw [hchain]
    obtain hj | ⟨-, rfl⟩ := hold j g hj
    · by_cases hkey : g.key = key
      · rw [hkey, InsertMap.get_set_self]
        simp
      · rw [InsertMap.get_set_other hkey]
        exact hinv.busy j g hj hopen
    · rw [InsertMap.get_set_self]
      simp
  · intro j g p hj hp
    obtain hj | ⟨rfl, rfl⟩ := hold j g hj
    · obtain ⟨hlt, ⟨hp', hget, hpkey⟩, hnone⟩ := hinv.prev j g p hj hp
      exact ⟨hlt, ⟨hp', hkept p hp' hget, hpkey⟩, hbetween (Nat.le_of_lt (lt_of_locks hj)) hnone⟩
    · obtain ⟨hp', hget, hpkey, -, hnone⟩ := hinv.tail key p hp
      exact ⟨lt_of_locks hget, ⟨hp', hkept p hp' hget, hpkey⟩, hbetween (Nat.le_refl _) hnone⟩
  · intro j g hj hnone
    obtain hj | ⟨rfl, rfl⟩ := hold j g hj
    · exact hearlier (Nat.le_of_lt (lt_of_locks hj)) (hinv.first j g hj hnone)
    · exact hearlier (Nat.le_refl _) (hfree hnone)
  · intro j g hj hg
    obtain hj | ⟨rfl, rfl⟩ := hold j g hj
    · exact hearlier (Nat.le_of_lt (lt_of_locks hj)) (hinv.granted j g hj hg)
    · exact hearlier (Nat.le_refl _) (hfree (Option.isNone_iff_eq_none.mp hg))
  · intro j g hj hg
    obtain hj | ⟨-, rfl⟩ := hold j g hj
    · exact ⟨(hinv.settled j g hj hg).1,
        hearlier (Nat.le_of_lt (lt_of_locks hj)) (hinv.settled j g hj hg).2⟩
    · cases hg
  · intro j g hj hg
    obtain hj | ⟨-, rfl⟩ := hold j g hj
    · exact hinv.released j g hj hg
    · cases hg

theorem MutexInv.act {a : LockStep} (hm : m.act a = .ok m') : MutexInv m' := by
  cases a with
  | acquire key =>
    cases hm
    exact hinv.acquire key
  | release i =>
    simp only [FolderMutex.act] at hm
    split at hm
    · cases hm
    · rename_i h hi
      split at hm
      · rename_i hgranted
        cases hm
        exact hinv.release hi hgranted
      · cases hm
  | settle i =>
    simp only [FolderMutex.act] at hm
    split at hm
    · cases hm
    · rename_i h hi
      split at hm
      · rename_i hready
        cases hm
        exact hinv.settle hi hready.1 hready.2.1
      · cases hm
  | grant i =>
    simp only [FolderMutex.act] at hm
    split at hm
    · cases hm
    · rename_i h hi
      split at hm
      · rename_i hready
        cases hm
        exact hinv.grant hi hready.1
      · cases hm

end

theorem mutexInv_reachable (h : mutexSystem.Reachable m) : MutexInv m := by
  refine h.invariant ?_ fun _ _ _ _ hs hst => hs.act hst
  rintro m ⟨hchain, hlocks⟩
  constructor
  case tail =>
    intro key i hi
    simp [InsertMap.get, hchain] at hi
  all_goals simp [hlocks]

end Rules

/-! ## Progress -/

/-- A continuation of a call for the key. -/
def StepFor (m : FolderMutex) (key : String) (a : LockStep) : Prop :=
  ∃ (i : Nat) (g : RunLock), (a = .settle i ∨ a = .grant i) ∧ m.locks[i]? = some g ∧ g.key = key

/-- The same calls; only continuations have run. -/
def Continues (m m' : FolderMutex) : Prop :=
  ∀ (i : Nat) (g : RunLock), m.locks[i]? = some g → ∃ g', m'.locks[i]? = some g' ∧
    g'.key = g.key ∧ g'.prev = g.prev ∧ g'.released = g.released

section Progress

variable {m m' : FolderMutex} {i j : Nat} {h : RunLock}

theorem Continues.set (hc : m.Continues m') {h' : RunLock} (hi : m'.locks[i]? = some h)
    (hkey : h'.key = h.key) (hprev : h'.prev = h.prev) (hreleased : h'.released = h.released) :
    m.Continues { m' with locks := m'.locks.set i h' } := by
  intro j g hj
  obtain ⟨g', hg', hsame⟩ := hc j g hj
  by_cases hji : j = i
  · subst hji
    cases hi.symm.trans hg'
    refine ⟨h', by simp [lt_of_locks hi], ?_⟩
    rw [hkey, hprev, hreleased]
    exact hsame
  · exact ⟨g', by simp [List.getElem?_set_ne (Ne.symm hji), hg'], hsame⟩

/-- A run of continuations for the key. -/
def ContinuesFor (m : FolderMutex) (key : String) (m' : FolderMutex) : Prop :=
  ∃ as, mutexSystem.Path m as m' ∧ (∀ a ∈ as, m.StepFor key a) ∧ m.Continues m'

/-- The tail of call `i` can be settled. -/
def CanSettle (m : FolderMutex) (key : String) (i : Nat) : Prop :=
  ∃ m', m.ContinuesFor key m' ∧ ∃ h', m'.locks[i]? = some h' ∧ h'.settled = true

theorem ContinuesFor.snoc {key : String} (hc : m.ContinuesFor key m') {a : LockStep}
    (h' : RunLock) (ha : m.StepFor key a) (hi : m'.locks[i]? = some h) (hkey : h'.key = h.key)
    (hprev : h'.prev = h.prev) (hreleased : h'.released = h.released)
    (hstep : m'.act a = .ok { m' with locks := m'.locks.set i h' }) :
    m.ContinuesFor key { m' with locks := m'.locks.set i h' } := by
  obtain ⟨as, hpath, has, hcont⟩ := hc
  refine ⟨as ++ [a], hpath.snoc hstep, ?_, hcont.set hi hkey hprev hreleased⟩
  intro b hb
  obtain hb | hb := List.mem_append.mp hb
  · exact has b hb
  · rw [List.mem_singleton.mp hb]
    exact ha

/-- If the tail before it can be settled, a call can stop waiting. -/
theorem MutexInv.exists_prevSettled (hinv : MutexInv m) (hi : m.locks[i]? = some h)
    (hearlier : m.EarlierReleased h.key i)
    (hsettle : ∀ p < i, ∀ hp, m.locks[p]? = some hp → hp.released = true →
      m.EarlierReleased hp.key p → m.CanSettle hp.key p) :
    ∃ m' h', m.ContinuesFor h.key m' ∧ m'.locks[i]? = some h' ∧ h'.key = h.key ∧
      h'.released = h.released ∧ m'.prevSettled h' = true := by
  have hpred : ∃ m', m.ContinuesFor h.key m' ∧ m'.prevSettled h = true := by
    cases hprev : h.prev with
    | none =>
      exact ⟨m, ⟨[], .nil m, by simp, fun j g hj => ⟨g, hj, rfl, rfl, rfl⟩⟩,
        by simp [prevSettled, hprev]⟩
    | some p =>
      obtain ⟨hlt, ⟨hp, hget, hpkey⟩, -⟩ := hinv.prev i h p hi hprev
      have hpearlier : m.EarlierReleased hp.key p := fun j g hj hg hgkey =>
        hearlier j g (by omega) hg (hgkey.trans hpkey)
      obtain ⟨m', hcont, hp', hget', hsettled⟩ :=
        hsettle p hlt hp hget (hearlier p hp hlt hget hpkey) hpearlier
      rw [hpkey] at hcont
      exact ⟨m', hcont, by simp [prevSettled, hprev, hget', hsettled]⟩
  obtain ⟨m', hcont, hprev⟩ := hpred
  obtain ⟨h', hi', hkey, hprev', hreleased⟩ := hcont.choose_spec.2.2 i h hi
  refine ⟨m', h', hcont, hi', hkey, hreleased, ?_⟩
  unfold prevSettled at hprev ⊢
  rw [hprev']
  exact hprev

/-- With every earlier call of the key released, the tail of a released call gets settled, by
    continuations of that key alone. By induction along the chain. -/
theorem MutexInv.canSettle (hinv : MutexInv m) (i : Nat) : ∀ h, m.locks[i]? = some h →
    h.released = true → m.EarlierReleased h.key i → m.CanSettle h.key i := by
  induction i using Nat.strongRecOn with
  | ind i ih =>
    intro h hi hreleased hearlier
    obtain ⟨m', h', hcont, hi', hkey, hrel, hready⟩ := hinv.exists_prevSettled hi hearlier ih
    by_cases hdone : h'.settled = true
    · exact ⟨m', hcont, h', hi', hdone⟩
    · have hstep : m'.act (.settle i) =
          .ok { m' with locks := m'.locks.set i { h' with settled := true } } := by
        simp [FolderMutex.act, hi', hready, hrel, hreleased, hdone]
      exact ⟨_, hcont.snoc { h' with settled := true } ⟨i, h, .inl rfl, hi, rfl⟩ hi' rfl
        rfl rfl hstep,
        { h' with settled := true }, by simp [lt_of_locks hi'], rfl⟩

/-- With every earlier call of the key released, a call is granted, by continuations of that key
    alone. -/
theorem MutexInv.canGrant (hinv : MutexInv m) (hi : m.locks[i]? = some h)
    (hearlier : m.EarlierReleased h.key i) :
    ∃ m', m.ContinuesFor h.key m' ∧ ∃ h', m'.locks[i]? = some h' ∧ h'.granted = true := by
  obtain ⟨m', h', hcont, hi', -, -, hready⟩ :=
    hinv.exists_prevSettled hi hearlier fun p _ => hinv.canSettle p
  by_cases hdone : h'.granted = true
  · exact ⟨m', hcont, h', hi', hdone⟩
  · have hstep : m'.act (.grant i) =
        .ok { m' with locks := m'.locks.set i { h' with granted := true } } := by
      simp [FolderMutex.act, hi', hready, hdone]
    exact ⟨_, hcont.snoc { h' with granted := true } ⟨i, h, .inr rfl, hi, rfl⟩ hi' rfl
      rfl rfl hstep,
      { h' with granted := true }, by simp [lt_of_locks hi'], rfl⟩

end Progress

/-! ## The lock -/

/-- What a lock that is first in, first out promises. -/
structure FifoLock (m : FolderMutex) : Prop where
  /-- At most one handle of a key is granted and not released. -/
  exclusive : ∀ key,
    (m.locks.filter fun h => h.key = key && h.granted && !h.released).length ≤ 1
  /-- Handles of a key are granted in the order of the calls, each after the release of the one
      before it. -/
  fifo : ∀ (i j : Nat) (h h' : RunLock), i < j → m.locks[i]? = some h → m.locks[j]? = some h' →
    h.key = h'.key → h'.granted = true → h.granted = true ∧ h.released = true
  /-- A call with nobody before it at its key is granted, whatever happens at other keys. -/
  proceeds : ∀ (i : Nat) (h : RunLock), m.locks[i]? = some h → m.EarlierReleased h.key i →
    ∃ m', m.ContinuesFor h.key m' ∧ ∃ h', m'.locks[i]? = some h' ∧ h'.granted = true
  /-- As long as no other handle of the key is released, at most one is granted. -/
  onlyNext : ∀ (key : String) (as : List LockStep) (m' : FolderMutex), mutexSystem.Path m as m' →
    (∀ (i : Nat) (h' : RunLock), m'.locks[i]? = some h' → h'.key = key → h'.released = true →
      ∃ h, m.locks[i]? = some h ∧ h.released = true) →
    ∀ (i j : Nat) (h h' : RunLock), m'.locks[i]? = some h → m'.locks[j]? = some h' →
      h.key = key → h'.key = key → h.granted = true → h'.granted = true →
      (∀ g, m.locks[i]? = some g → g.granted = false) →
      (∀ g, m.locks[j]? = some g → g.granted = false) → i = j
  /-- A repeated release does nothing. -/
  idempotent : ∀ (i : Nat) (h : RunLock), m.locks[i]? = some h → h.released = true →
    m.act (.release i) = .ok m
  /-- A key whose handles are all released is not in the map. -/
  free : ∀ key, (∀ h ∈ m.locks, h.key = key → h.released = true) →
    ∀ p ∈ m.chain.entries, p.1 ≠ key

theorem MutexInv.order {m : FolderMutex} (hinv : MutexInv m) {i j : Nat} {h h' : RunLock}
    (hij : i < j) (hi : m.locks[i]? = some h) (hj : m.locks[j]? = some h') (hkey : h.key = h'.key)
    (hgranted : h'.granted = true) : h.granted = true ∧ h.released = true :=
  have hreleased := hinv.granted j h' hj hgranted i h hij hi hkey
  ⟨hinv.released i h hi hreleased, hreleased⟩

/-- In every reachable state the lock is first in, first out. -/
theorem folderMutex_fifo {m : FolderMutex} (h : mutexSystem.Reachable m) : m.FifoLock := by
  have hinv := mutexInv_reachable h
  refine ⟨?_, fun i j h h' hij hi hj => hinv.order hij hi hj,
    fun i h hi hearlier => hinv.canGrant hi hearlier, ?_, ?_, ?_⟩
  · refine fun key => length_filter_le_one fun i j a b ha hb hpa hpb => ?_
    simp only [Bool.and_eq_true, decide_eq_true_eq, Bool.not_eq_true'] at hpa hpb
    obtain hij | rfl | hji := Nat.lt_trichotomy i j
    · have hreleased := (hinv.order hij ha hb (hpa.1.1.trans hpb.1.1.symm) hpb.1.2).2
      rw [hpa.2] at hreleased
      cases hreleased
    · rfl
    · have hreleased := (hinv.order hji hb ha (hpb.1.1.trans hpa.1.1.symm) hpa.1.2).2
      rw [hpb.2] at hreleased
      cases hreleased
  · intro key as m' hpath hsame
    have hinv' := mutexInv_reachable (h.path hpath)
    -- the earlier one of two would have been released, and so granted, before
    have hlt : ∀ (i j : Nat) (h h' : RunLock), i < j → m'.locks[i]? = some h →
        m'.locks[j]? = some h' → h.key = key → h'.key = key → h'.granted = true →
        ¬∀ g, m.locks[i]? = some g → g.granted = false := by
      intro i j h h' hij hi hj hkey hkey' hgranted hnew
      obtain ⟨-, hreleased⟩ := hinv'.order hij hi hj (hkey.trans hkey'.symm) hgranted
      obtain ⟨g, hg, hgreleased⟩ := hsame i h hi hkey hreleased
      have hgranted' := hinv.released i g hg hgreleased
      rw [hnew g hg] at hgranted'
      cases hgranted'
    intro i j h h' hi hj hkey hkey' hg hg' hnew hnew'
    obtain hij | rfl | hji := Nat.lt_trichotomy i j
    · exact absurd hnew (hlt i j h h' hij hi hj hkey hkey' hg')
    · rfl
    · exact absurd hnew' (hlt j i h' h hji hj hi hkey' hkey hg)
  · intro i h hi hreleased
    simp [FolderMutex.act, hi, hinv.released i h hi hreleased, FolderMutex.release, hreleased]
  · intro key hall
    rw [← InsertMap.get_eq_none_iff]
    cases hget : m.chain.get key with
    | none => rfl
    | some i =>
      obtain ⟨h, hi, hkey, hopen, -⟩ := hinv.tail key i hget
      rw [hall h (List.mem_of_getElem? hi) hkey] at hopen
      cases hopen

/-- Two runs in one folder and one in another: the second one waits for the first, which releases
    twice. -/
theorem folderMutex_fifo_twoFolders :
    ∃ m, mutexSystem.Reachable m ∧
      m.locks.map (fun h => (h.key, h.wasBusy, h.granted, h.released)) =
        [("a", false, true, true), ("a", true, true, false), ("b", false, true, false)] ∧
      m.FifoLock := by
  have hrun : ∀ s a t, FolderMutex.act s a = .ok t → mutexSystem.step s a t := fun _ _ _ h => h
  obtain ⟨m, hpath, hm⟩ := Transition.exists_path_of_run hrun ⟨{}, []⟩
    [.acquire "a", .acquire "a", .acquire "b", .release 0, .release 0, .settle 0, .grant 1]
    (fun m => m.locks.map (fun h => (h.key, h.wasBusy, h.granted, h.released)) =
      [("a", false, true, true), ("a", true, true, false), ("b", false, true, false)])
    (by decide +kernel)
  have hreach : mutexSystem.Reachable m := .path (.init ⟨rfl, rfl⟩) hpath
  exact ⟨m, hreach, of_decide_eq_true hm, folderMutex_fifo hreach⟩

/-! ## Nobody waits for nothing -/

/-- No tail can be settled and no waiting call granted. -/
def Quiet (m : FolderMutex) : Prop :=
  ∀ i m', m.act (.settle i) ≠ .ok m' ∧ m.act (.grant i) ≠ .ok m'

/-- By induction along the chain: with every handle released nothing holds a call up. -/
theorem MutexInv.all_done {m : FolderMutex} (hinv : MutexInv m) (hquiet : m.Quiet)
    (hfree : ∀ h ∈ m.locks, h.granted = true → h.released = true) (i : Nat) :
    ∀ h, m.locks[i]? = some h → h.granted = true ∧ h.released = true ∧ h.settled = true := by
  induction i using Nat.strongRecOn with
  | ind i ih =>
    intro h hi
    have hprev : m.prevSettled h = true := by
      unfold prevSettled
      cases hp : h.prev with
      | none => rfl
      | some p =>
        obtain ⟨hlt, ⟨hp', hget, -⟩, -⟩ := hinv.prev i h p hi hp
        simp [hget, (ih p hlt hp' hget).2.2]
    have hgranted : h.granted = true := by
      by_contra hwaits
      have hgrant : m.act (.grant i) =
          .ok { m with locks := m.locks.set i { h with granted := true } } := by
        simp [FolderMutex.act, hi, hprev, hwaits]
      exact (hquiet i _).2 hgrant
    have hreleased := hfree h (List.mem_of_getElem? hi) hgranted
    refine ⟨hgranted, hreleased, ?_⟩
    by_contra hopen
    have hsettle : m.act (.settle i) =
        .ok { m with locks := m.locks.set i { h with settled := true } } := by
      simp [FolderMutex.act, hi, hprev, hreleased, hopen]
    exact (hquiet i _).1 hsettle

/-- In every reachable state the map has the keys with a call that is not released, and no others.
    A call waits only while a handle is out or a continuation is due: with neither, every call has
    been granted and the map is empty. -/
theorem folderMutex_drains {m : FolderMutex} (h : mutexSystem.Reachable m) :
    (∀ key, (∃ p ∈ m.chain.entries, p.1 = key) ↔
      ∃ h ∈ m.locks, h.key = key ∧ h.released = false) ∧
    (m.Quiet → (∀ h ∈ m.locks, h.granted = true → h.released = true) →
      (∀ h ∈ m.locks, h.granted = true) ∧ m.activeKeyCount = 0) := by
  have hinv := mutexInv_reachable h
  have hkeys : ∀ key, (∃ p ∈ m.chain.entries, p.1 = key) ↔
      ∃ h ∈ m.locks, h.key = key ∧ h.released = false := by
    intro key
    have hget : (∃ p ∈ m.chain.entries, p.1 = key) ↔ m.chain.get key ≠ none := by
      simp [InsertMap.get_eq_none_iff]
    rw [hget]
    constructor
    · intro hsome
      obtain ⟨i, hi⟩ := Option.ne_none_iff_exists'.mp hsome
      obtain ⟨h, hh, hkey, hopen, -⟩ := hinv.tail key i hi
      exact ⟨h, List.mem_of_getElem? hh, hkey, hopen⟩
    · rintro ⟨h, hh, rfl, hopen⟩
      obtain ⟨i, hi⟩ := List.getElem?_of_mem hh
      exact hinv.busy i h hi hopen
  refine ⟨hkeys, fun hquiet hfree => ?_⟩
  have hall : ∀ h ∈ m.locks, h.granted = true ∧ h.released = true := by
    intro h hh
    obtain ⟨i, hi⟩ := List.getElem?_of_mem hh
    obtain ⟨hgranted, hreleased, -⟩ := hinv.all_done hquiet hfree i h hi
    exact ⟨hgranted, hreleased⟩
  refine ⟨fun h hh => (hall h hh).1, List.length_eq_zero_iff.mpr ?_⟩
  refine List.eq_nil_iff_forall_not_mem.mpr fun p hp => ?_
  obtain ⟨h, hh, -, hopen⟩ := (hkeys p.1).mp ⟨p, hp, rfl⟩
  rw [(hall h hh).2] at hopen
  cases hopen

/-- Two calls for one folder: while the second one waits the map has the folder, and once both have
    been released it is empty. -/
theorem folderMutex_drains_twoCalls :
    (∃ m, mutexSystem.Reachable m ∧ (m.locks[1]?).any (!·.granted) = true ∧
      ∃ p ∈ m.chain.entries, p.1 = "a") ∧
    ∃ m, mutexSystem.Reachable m ∧ m.locks.length = 2 ∧ (∀ h ∈ m.locks, h.granted = true) ∧
      m.activeKeyCount = 0 := by
  constructor
  · obtain ⟨m, hpath, hm⟩ := Transition.exists_path_of_run (M := mutexSystem) (fun _ _ _ h => h)
      ⟨{}, []⟩ [.acquire "a", .acquire "a"] (fun m => (m.locks[1]?).any (!·.granted) &&
        m.locks.any fun h => h.key = "a" && !h.released) (by decide)
    have hreach : mutexSystem.Reachable m := .path (.init ⟨rfl, rfl⟩) hpath
    obtain ⟨hwaits, hopen⟩ := Bool.and_eq_true_iff.mp hm
    obtain ⟨h, hh, hopen⟩ := List.any_eq_true.mp hopen
    have hkey : h.key = "a" ∧ h.released = false := by simpa using hopen
    exact ⟨m, hreach, hwaits, ((folderMutex_drains hreach).1 "a").mpr ⟨h, hh, hkey⟩⟩
  · obtain ⟨m, hpath, hm⟩ := Transition.exists_path_of_run (M := mutexSystem) (fun _ _ _ h => h)
      ⟨{}, []⟩ [.acquire "a", .acquire "a", .release 0, .settle 0, .grant 1, .release 1, .settle 1]
      (fun m => m.locks.length = 2 && m.locks.all fun h => h.granted && h.released && h.settled)
      (by decide)
    have hreach : mutexSystem.Reachable m := .path (.init ⟨rfl, rfl⟩) hpath
    obtain ⟨hlength, hall⟩ := Bool.and_eq_true_iff.mp hm
    simp only [List.all_eq_true, Bool.and_eq_true] at hall
    have hquiet : m.Quiet := by
      intro i m'
      cases hi : m.locks[i]? with
      | none => simp [FolderMutex.act, hi]
      | some h => simp [FolderMutex.act, hi, hall h (List.mem_of_getElem? hi)]
    exact ⟨m, hreach, of_decide_eq_true hlength,
      (folderMutex_drains hreach).2 hquiet fun h hh _ => (hall h hh).1.2⟩

end FolderMutex

end WorkflowBoard.AgentManager
