import Mathlib.Data.List.Perm.Subperm
import Mathlib.Data.List.Sort

/-!
# Paging with a cursor

A query returns the first rows in an order that may leave ties open; the next page is asked for
with the last row of the page before, and has only rows that the cursor condition puts after it.
-/

namespace WorkflowBoard

variable {α : Type*}

/-- A page: at most `n` rows, the first ones in an order that `r` allows. -/
def IsPage (r : α → α → Prop) (n : Nat) (rows page : List α) : Prop :=
  ∃ ordered : List α, ordered.Perm rows ∧ ordered.Pairwise r ∧ page = ordered.take n

/-- The rows that the cursor leaves. -/
def behind (after : α → α → Bool) (rows : List α) : Option α → List α
  | none => rows
  | some x => rows.filter (after x)

/-- The pages behind a cursor, up to an empty one. -/
inductive Paged (load : Option α → List α → Prop) : Option α → List (List α) → Prop where
  | done {cursor : Option α} (h : load cursor []) : Paged load cursor []
  | more {cursor : Option α} {page : List α} {pages : List (List α)} {x : α}
    (h : load cursor page) (hlast : page.getLast? = some x) (rest : Paged load (some x) pages) :
    Paged load cursor (page :: pages)

/-- Whatever pages are loaded behind a cursor, an empty one comes. -/
inductive Ends (load : Option α → List α → Prop) : Option α → Prop where
  | intro {cursor : Option α}
    (h : ∀ page x, load cursor page → page.getLast? = some x → Ends load (some x)) :
    Ends load cursor

/-- Every row once, and in order. -/
def ExactPages (r : α → α → Prop) (rows : List α) (pages : List (List α)) : Prop :=
  pages.flatten.Perm rows ∧ pages.flatten.Pairwise r

/-- Paging from the first page on ends, and returns every row once and in order. -/
def PagesExactly (r : α → α → Prop) (rows : List α) (load : Option α → List α → Prop) : Prop :=
  Ends load none ∧ ∀ pages, Paged load none pages → ExactPages r rows pages

section Cursor

variable {r : α → α → Prop} {after : α → α → Bool} {rows page : List α} {cursor : Option α}
  {n : Nat} {x y : α}

/-- What is after a row that the cursor leaves is left too. -/
theorem mem_behind_of_after (htrans : ∀ a b c, after a b → after b c → after a c)
    (hx : x ∈ behind after rows cursor) (hy : y ∈ rows) (h : after x y) :
    y ∈ behind after rows cursor := by
  cases cursor with
  | none => exact hy
  | some z =>
    simp only [behind, List.mem_filter] at hx ⊢
    exact ⟨hy, htrans z x y hx.2 h⟩

theorem mem_of_mem_behind (h : x ∈ behind after rows cursor) : x ∈ rows := by
  cases cursor with
  | none => exact h
  | some z => exact (List.mem_filter.mp h).1

theorem nodup_behind (h : rows.Nodup) : (behind after rows cursor).Nodup := by
  cases cursor with
  | none => exact h
  | some z => exact h.filter _

/-- Each page leaves fewer rows. -/
theorem behind_shrinks (hnodup : rows.Nodup)
    (htrans : ∀ a b c, after a b → after b c → after a c) (hirrefl : ∀ a, ¬after a a)
    (hx : x ∈ behind after rows cursor) :
    (behind after rows (some x)).length < (behind after rows cursor).length := by
  have hsub : x :: behind after rows (some x) ⊆ behind after rows cursor := by
    intro y hy
    obtain rfl | hy := List.mem_cons.mp hy
    · exact hx
    · have hafter := List.mem_filter.mp hy
      exact mem_behind_of_after htrans hx hafter.1 hafter.2
  have hfresh : x ∉ behind after rows (some x) := fun h => hirrefl x (List.mem_filter.mp h).2
  exact (List.subperm_of_subset (List.nodup_cons.mpr ⟨hfresh, nodup_behind hnodup⟩) hsub).length_le

end Cursor

section Exact

variable {r : α → α → Prop} {after : α → α → Bool} {rows : List α} {n : Nat}
  {load : Option α → List α → Prop}

/-- Each page leaves fewer rows, so paging ends. -/
theorem ends (hnodup : rows.Nodup) (htrans : ∀ a b c, after a b → after b c → after a c)
    (hirrefl : ∀ a, ¬after a a)
    (hload : ∀ cursor, (∀ x ∈ cursor, x ∈ rows) → ∀ page,
      load cursor page → IsPage r n (behind after rows cursor) page)
    (cursor : Option α) (hcursor : ∀ x ∈ cursor, x ∈ rows) : Ends load cursor := by
  constructor
  intro page x hpage hlast
  obtain ⟨ordered, hperm, -, rfl⟩ := hload cursor hcursor page hpage
  have hx : x ∈ behind after rows cursor :=
    hperm.subset (List.mem_of_mem_take (List.mem_of_getLast? hlast))
  have hshrinks := behind_shrinks hnodup htrans hirrefl hx
  exact ends hnodup htrans hirrefl hload (some x) fun y hy =>
    Option.some.inj hy ▸ mem_of_mem_behind hx
termination_by (behind after rows cursor).length

/-- The pages behind a cursor are the rows that it leaves. -/
theorem Paged.exact (hnodup : rows.Nodup) (htrans : ∀ a b c, after a b → after b c → after a c)
    (hirrefl : ∀ a, ¬after a a)
    (hload : ∀ cursor, (∀ x ∈ cursor, x ∈ rows) → ∀ page,
      load cursor page ↔ IsPage r n (behind after rows cursor) page)
    (hafter : ∀ a ∈ rows, ∀ b ∈ rows, a ≠ b → r a b → after a b) (hn : 0 < n)
    {cursor : Option α} {pages : List (List α)} (h : Paged load cursor pages)
    (hcursor : ∀ x ∈ cursor, x ∈ rows) : ExactPages r (behind after rows cursor) pages := by
  induction h with
  | done h =>
    obtain ⟨ordered, hperm, -, hempty⟩ := (hload _ hcursor _).mp h
    have : ordered = [] := by
      rw [eq_comm, List.take_eq_nil_iff] at hempty
      exact hempty.resolve_left (by omega)
    subst this
    exact ⟨hperm, .nil⟩
  | @more cursor page pages x h hlast rest ih =>
    obtain ⟨ordered, hperm, hsorted, rfl⟩ := (hload _ hcursor _).mp h
    have hnd : ordered.Nodup := hperm.nodup_iff.mpr (nodup_behind hnodup)
    rw [← List.take_append_drop n ordered] at hnd hsorted
    obtain ⟨hpage, hdrop, hcross⟩ := List.pairwise_append.mp hsorted
    have hx : x ∈ ordered.take n := List.mem_of_getLast? hlast
    have hbehind : x ∈ behind after rows cursor := hperm.subset (List.mem_of_mem_take hx)
    obtain ⟨hflat, hrest⟩ := ih fun y hy => Option.some.inj hy ▸ mem_of_mem_behind hbehind
    -- the rows that the next cursor leaves are those behind the page
    have hleft : (behind after rows (some x)).Perm (ordered.drop n) := by
      rw [List.perm_ext_iff_of_nodup (nodup_behind hnodup) (List.nodup_append.mp hnd).2.1]
      intro y
      constructor
      · intro hy
        obtain ⟨hyrows, hxy⟩ := List.mem_filter.mp hy
        have hmem := hperm.symm.subset (mem_behind_of_after htrans hbehind hyrows hxy)
        rw [← List.take_append_drop n ordered, List.mem_append] at hmem
        refine hmem.resolve_left fun htake => ?_
        have hne : y ≠ x := fun heq => hirrefl x (heq ▸ hxy)
        -- the last of the page is behind all others of it
        obtain ⟨before, hpre⟩ := List.getLast?_eq_some_iff.mp hlast
        rw [hpre] at hpage htake
        obtain hy | hy := List.mem_append.mp htake
        · have hyx := (List.pairwise_append.mp hpage).2.2 y hy x (by simp)
          have hback := hafter y hyrows x (mem_of_mem_behind hbehind) hne hyx
          exact hirrefl x (htrans x y x hxy hback)
        · exact hne (List.mem_singleton.mp hy)
      · intro hy
        have hyrows := mem_of_mem_behind (hperm.subset (List.mem_of_mem_drop hy))
        refine List.mem_filter.mpr ⟨hyrows, hafter x (mem_of_mem_behind hbehind) y hyrows ?_ ?_⟩
        · exact (List.nodup_append.mp hnd).2.2 x hx y hy
        · exact hcross x hx y hy
    have hall := hflat.trans hleft
    constructor
    · rw [List.flatten_cons]
      refine (hall.append_left _).trans ?_
      rw [List.take_append_drop]
      exact hperm
    · rw [List.flatten_cons, List.pairwise_append]
      exact ⟨hpage, hrest, fun a ha b hb => hcross a ha b (hall.subset hb)⟩

/-- The rows have an order, with `a` in front if it may stand there. -/
theorem exists_ordered [DecidableRel r] [Std.Total r] [IsTrans α r] (a : α) {l : List α}
    (hl : l ≠ []) : ∃ x rest, (x :: rest).Perm l ∧ (x :: rest).Pairwise r ∧
      (a ∈ l → r a x → x = a) := by
  classical
  by_cases ha : a ∈ l
  · have hperm : (List.orderedInsert r a ((l.erase a).insertionSort r)).Perm l :=
      (List.perm_orderedInsert r a _).trans
        (((List.perm_insertionSort r _).cons a).trans (List.perm_cons_erase ha).symm)
    have hsorted := (List.pairwise_insertionSort r (l.erase a)).orderedInsert a
    cases hrest : (l.erase a).insertionSort r with
    | nil =>
      rw [hrest] at hperm hsorted
      exact ⟨a, [], hperm, hsorted, fun _ _ => rfl⟩
    | cons y rest =>
      rw [hrest, List.orderedInsert] at hperm hsorted
      split at hperm
      · rename_i hay
        rw [if_pos hay] at hsorted
        exact ⟨a, y :: rest, hperm, hsorted, fun _ _ => rfl⟩
      · rename_i hay
        rw [if_neg hay] at hsorted
        exact ⟨y, _, hperm, hsorted, fun _ h => absurd h hay⟩
  · cases hsort : l.insertionSort r with
    | nil => exact absurd ((List.perm_insertionSort r l).symm.trans (by rw [hsort])).eq_nil hl
    | cons x rest =>
      exact ⟨x, rest, hsort ▸ List.perm_insertionSort r l, hsort ▸ List.pairwise_insertionSort r l,
        fun h => absurd h ha⟩

/-- Pages of one row that never leave `a` for later when it may come first. -/
theorem exists_paged [DecidableRel r] [Std.Total r] [IsTrans α r] (hnodup : rows.Nodup)
    (htrans : ∀ a b c, after a b → after b c → after a c) (hirrefl : ∀ a, ¬after a a)
    (hload : ∀ cursor, (∀ x ∈ cursor, x ∈ rows) → ∀ page,
      load cursor page ↔ IsPage r 1 (behind after rows cursor) page) (a : α)
    (cursor : Option α) (hcursor : ∀ x ∈ cursor, x ∈ rows) :
    ∃ pages, Paged load cursor pages ∧ pages.flatten ⊆ behind after rows cursor ∧
      pages.flatten.Pairwise fun x y => after x y ∧ (y = a → ¬r a x) := by
  by_cases hempty : behind after rows cursor = []
  · refine ⟨[], .done ((hload _ hcursor _).mpr ?_), by simp, .nil⟩
    rw [hempty]
    exact ⟨[], .nil, .nil, rfl⟩
  · obtain ⟨x, rest, hperm, hsorted, hfirst⟩ := exists_ordered (r := r) a hempty
    have hx : x ∈ behind after rows cursor := hperm.subset (by simp)
    have hshrinks := behind_shrinks hnodup htrans hirrefl hx
    obtain ⟨pages, hpaged, hsub, hpairs⟩ := exists_paged hnodup htrans hirrefl hload a
      (some x) fun y hy => Option.some.inj hy ▸ mem_of_mem_behind hx
    have hlater : ∀ y ∈ pages.flatten, after x y ∧ y ∈ behind after rows cursor := by
      intro y hy
      obtain ⟨hyrows, hxy⟩ := List.mem_filter.mp (hsub hy)
      exact ⟨hxy, mem_behind_of_after htrans hx hyrows hxy⟩
    have hpage := (hload _ hcursor [x]).mpr ⟨_, hperm, hsorted, rfl⟩
    refine ⟨[x] :: pages, .more hpage rfl hpaged, ?_, ?_⟩
    · intro y hy
      obtain rfl | hy := List.mem_cons.mp hy
      · exact hx
      · exact (hlater y hy).2
    · refine List.pairwise_cons.mpr ⟨fun y hy => ⟨(hlater y hy).1, ?_⟩, hpairs⟩
      rintro rfl hr
      rw [hfirst (hlater y hy).2 hr] at hlater
      exact hirrefl y (hlater y hy).1
termination_by (behind after rows cursor).length

/-- Paging ends and returns the rows in order, for every page size and every order of the ties, just
    if a row that may stand behind another one is after it. -/
theorem pagesExactly_iff [DecidableRel r] [Std.Total r] [IsTrans α r]
    (after : α → α → Bool) (hnodup : rows.Nodup)
    (htrans : ∀ a b c, after a b → after b c → after a c) (hirrefl : ∀ a, ¬after a a)
    {load : Nat → Option α → List α → Prop} {size : Nat → Nat} (hone : size 1 = 1)
    (hsize : ∀ n, 0 < n → 0 < size n)
    (hload : ∀ n, 0 < n → ∀ cursor, (∀ x ∈ cursor, x ∈ rows) → ∀ page,
      load n cursor page ↔ IsPage r (size n) (behind after rows cursor) page) :
    (∀ n, 0 < n → PagesExactly r rows (load n)) ↔
      ∀ a ∈ rows, ∀ b ∈ rows, a ≠ b → r a b → after a b := by
  constructor
  · intro hexact a ha b hb hne hab
    have hload := hload 1 (by omega)
    rw [hone] at hload
    obtain ⟨pages, hpaged, -, hpairs⟩ :=
      exists_paged hnodup htrans hirrefl hload a none (by simp)
    have hperm := ((hexact 1 (by omega)).2 pages hpaged).1
    -- `a` and `b` are both returned, and `b` cannot be first
    obtain ⟨pre, post, hsplit⟩ := List.append_of_mem (hperm.symm.subset ha)
    rw [hsplit] at hperm hpairs
    have hbmem := hperm.symm.subset hb
    simp only [List.mem_append, List.mem_cons] at hbmem
    obtain ⟨-, hpost, hcross⟩ := List.pairwise_append.mp hpairs
    obtain hb | rfl | hb := hbmem
    · exact absurd hab ((hcross b hb a (by simp)).2 rfl)
    · exact absurd rfl hne
    · exact ((List.pairwise_cons.mp hpost).1 b hb).1
  · intro hafter n hn
    constructor
    · exact ends hnodup htrans hirrefl (fun c hc page => (hload n hn c hc page).mp) none (by simp)
    · exact fun pages hpaged =>
        hpaged.exact hnodup htrans hirrefl (hload n hn) hafter (hsize n hn) (by simp)

/-! ## Rows that are after themselves -/

/-- Where each row is after itself, paging ends only at a cursor that leaves nothing. -/
theorem Ends.behind_eq_nil [DecidableRel r] [Std.Total r] [IsTrans α r]
    (hself : ∀ x ∈ rows, after x x) (hn : 0 < n)
    (hload : ∀ cursor, (∀ x ∈ cursor, x ∈ rows) → ∀ page,
      IsPage r n (behind after rows cursor) page → load cursor page)
    {cursor : Option α} (h : Ends load cursor) (hcursor : ∀ x ∈ cursor, x ∈ rows) :
    behind after rows cursor = [] := by
  induction h with
  | @intro cursor _ ih =>
    by_contra hne
    obtain ⟨a, -⟩ := List.exists_mem_of_ne_nil _ hne
    obtain ⟨x, rest, hperm, hsorted, -⟩ := exists_ordered (r := r) a hne
    have hfirst : (x :: rest).take n ≠ [] := by
      simp
      omega
    obtain ⟨y, hlast⟩ : ∃ y, ((x :: rest).take n).getLast? = some y :=
      ⟨_, List.getLast?_eq_some_getLast hfirst⟩
    have hy : y ∈ rows :=
      mem_of_mem_behind (hperm.subset (List.mem_of_mem_take (List.mem_of_getLast? hlast)))
    have hnone := ih _ y (hload cursor hcursor _ ⟨_, hperm, hsorted, rfl⟩) hlast
      fun z hz => Option.some.inj hz ▸ hy
    -- the last row of the page is left behind itself
    have hleft : y ∈ behind after rows (some y) := List.mem_filter.mpr ⟨hy, hself y hy⟩
    rw [hnone] at hleft
    cases hleft

/-- Such paging is exact just if there are no rows. -/
theorem pagesExactly_iff_of_self [DecidableRel r] [Std.Total r] [IsTrans α r]
    (hself : ∀ x ∈ rows, after x x) {load : Nat → Option α → List α → Prop} {size : Nat → Nat}
    (hsize : ∀ n, 0 < n → 0 < size n)
    (hload : ∀ n, 0 < n → ∀ cursor, (∀ x ∈ cursor, x ∈ rows) → ∀ page,
      load n cursor page ↔ IsPage r (size n) (behind after rows cursor) page) :
    (∀ n, 0 < n → PagesExactly r rows (load n)) ↔ rows = [] := by
  constructor
  · intro hexact
    exact (hexact 1 (by omega)).1.behind_eq_nil hself (hsize 1 (by omega))
      (fun c hc page => (hload 1 (by omega) c hc page).mpr) (by simp)
  · rintro rfl n hn
    have hempty : ∀ page, load n none page → page = [] := by
      intro page hpage
      obtain ⟨ordered, hperm, -, rfl⟩ := (hload n hn none (by simp) page).mp hpage
      rw [hperm.eq_nil, List.take_nil]
    constructor
    · constructor
      intro page x hpage hlast
      rw [hempty page hpage] at hlast
      cases hlast
    · intro pages hpaged
      cases hpaged with
      | done => exact ⟨.refl _, .nil⟩
      | more hpage hlast rest =>
        rw [hempty _ hpage] at hlast
        cases hlast

end Exact

end WorkflowBoard
