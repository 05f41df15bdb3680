import Mathlib.Data.List.Dedup
import Mathlib.Data.Nat.Cast.Order.Ring
import WorkflowBoard.ForStd.Levels
import WorkflowBoard.Native.GraphQuery

/-!
# `graph_call_path` finds shortest paths

Each side of the search is a ball around its end, and the two balls together do not reach from one
end to the other as long as there was no meeting. An expansion that was not cut off either meets
the other side, and then on a shortest path, or makes the ball one level larger.
-/

namespace WorkflowBoard.Ontology

variable {ι : Type} [LinearOrder ι]

/-! ## Paths of admitted edges -/

/-- The step is an edge that the search follows. -/
def Admitted (q : EdgeFilter ι) (edges : List (EdgeRow ι)) (st : GraphCallPathStep ι) : Prop :=
  ∃ e ∈ edges, q.admits e = true ∧ e.step = st

/-- A chain of admitted edges from one node to another. -/
def IsPath (q : EdgeFilter ι) (edges : List (EdgeRow ι)) :
    List (GraphCallPathStep ι) → ι → ι → Prop
  | [], u, v => u = v
  | st :: p, u, v => Admitted q edges st ∧ st.srcId = u ∧ IsPath q edges p st.dstId v

/-- An admitted edge leads from `u` to `v`. -/
def Follows (q : EdgeFilter ι) (edges : List (EdgeRow ι)) (u v : ι) : Prop :=
  ∃ e ∈ edges, q.admits e = true ∧ e.srcId = u ∧ e.dstId = v

section Paths

variable {q : EdgeFilter ι} {edges : List (EdgeRow ι)} {u v w : ι}
  {p p' : List (GraphCallPathStep ι)}

theorem IsPath.append (h : IsPath q edges p u w) (h' : IsPath q edges p' w v) :
    IsPath q edges (p ++ p') u v := by
  induction p generalizing u with
  | nil =>
    obtain rfl := h
    exact h'
  | cons st p ih => exact ⟨h.1, h.2.1, ih h.2.2⟩

theorem IsPath.single {e : EdgeRow ι} (he : e ∈ edges) (hq : q.admits e = true) :
    IsPath q edges [e.step] e.srcId e.dstId :=
  ⟨⟨e, he, hq, rfl⟩, rfl, rfl⟩

theorem IsPath.steps (h : IsPath q edges p u v) : Steps (Follows q edges) p.length u v := by
  induction p generalizing u with
  | nil => exact h
  | cons st p ih =>
    obtain ⟨⟨e, he, hq, rfl⟩, rfl, hrest⟩ := h
    have hone : Steps (Follows q edges) 1 e.srcId e.dstId := .one ⟨e, he, hq, rfl, rfl⟩
    have hall := hone.add (ih hrest)
    rwa [Nat.add_comm] at hall

end Paths

/-! ## What the queries return -/

section Queries

variable {q : EdgeFilter ι} {side : Side} {edges rows : List (EdgeRow ι)} {e r : EdgeRow ι}

theorem mem_slices {α : Type} {size : Nat} (hsize : 0 < size) {l : List α} {x : α} :
    (∃ c ∈ slices size l, x ∈ c) ↔ x ∈ l := by
  constructor
  · rintro ⟨c, hc, hx⟩
    obtain ⟨i, -, rfl⟩ := List.mem_map.mp hc
    exact List.mem_of_mem_drop (List.mem_of_mem_take hx)
  · intro hx
    obtain ⟨k, hk, rfl⟩ := List.getElem_of_mem hx
    -- position `k` is in slice `k / size`
    refine ⟨_, List.mem_map.mpr ⟨k / size, List.mem_range.mpr ?_, rfl⟩, ?_⟩
    · rw [Nat.lt_div_iff_mul_lt hsize]
      have := Nat.div_mul_le_self k size
      omega
    · have hdiv := Nat.div_add_mod' k size
      have hmod := Nat.mod_lt k hsize
      refine List.mem_iff_getElem.mpr ⟨k % size, ?_, ?_⟩
      · rw [List.length_take, List.length_drop]
        omega
      · rw [List.getElem_take, List.getElem_drop]
        congr 1

theorem representative_cases (rows : List (EdgeRow ι)) (best : Option (EdgeRow ι)) :
    (∃ e, rows.foldl (fun best e =>
        match best with
        | none => some e
        | some b =>
          if b.confidence < e.confidence ∨ (e.confidence = b.confidence ∧ e.id < b.id) then some e
          else some b) best = some e ∧ (e ∈ rows ∨ best = some e)) ∨ (rows = [] ∧ best = none) := by
  induction rows generalizing best with
  | nil =>
    cases best with
    | none => exact .inr ⟨rfl, rfl⟩
    | some b => exact .inl ⟨b, rfl, .inr rfl⟩
  | cons x rows ih =>
    rw [List.foldl_cons]
    obtain ⟨e, he, hmem⟩ | ⟨-, hnone⟩ := ih (match best with
      | none => some x
      | some b =>
        if b.confidence < x.confidence ∨ (x.confidence = b.confidence ∧ x.id < b.id) then some x
        else some b)
    · refine .inl ⟨e, he, ?_⟩
      obtain hmem | hmem := hmem
      · exact .inl (List.mem_cons_of_mem _ hmem)
      · cases best with
        | none => exact .inl (Option.some.inj hmem ▸ List.mem_cons_self)
        | some b =>
          dsimp only at hmem
          split at hmem
          · exact .inl (Option.some.inj hmem ▸ List.mem_cons_self)
          · exact .inr hmem
    · cases best with
      | none => cases hnone
      | some b =>
        dsimp only at hnone
        split at hnone <;> cases hnone

theorem mem_of_representative (h : representative rows = some e) : e ∈ rows := by
  obtain ⟨e', he', hmem⟩ | ⟨rfl, -⟩ := representative_cases rows none
  · cases he'.symm.trans h
    exact hmem.resolve_right (by simp)
  · cases h

theorem exists_representative (h : r ∈ rows) : ∃ e, representative rows = some e := by
  obtain ⟨e, he, -⟩ | ⟨rfl, -⟩ := representative_cases rows none
  · exact ⟨e, he⟩
  · cases h

theorem mem_of_mem_ranked (h : e ∈ ranked side rows) : e ∈ rows := by
  obtain ⟨d, -, hd⟩ := List.mem_filterMap.mp h
  exact (List.mem_filter.mp (mem_of_representative hd)).1

theorem exists_mem_ranked (h : r ∈ rows) :
    ∃ e ∈ ranked side rows, side.discoverId e = side.discoverId r := by
  have hr : r ∈ rows.filter fun e => side.discoverId e = side.discoverId r :=
    List.mem_filter.mpr ⟨h, by simp⟩
  obtain ⟨e, he⟩ := exists_representative hr
  have hsame := (List.mem_filter.mp (mem_of_representative he)).2
  refine ⟨e, List.mem_filterMap.mpr ⟨side.discoverId r, ?_, he⟩, by simpa using hsame⟩
  exact List.mem_dedup.mpr (List.mem_map_of_mem h)

/-- What a query for meetings finds is an edge between the chunks. -/
theorem candidateRows_sound {chunk otherChunk : List ι}
    (h : e ∈ candidateRows q side edges chunk otherChunk) :
    e ∈ edges ∧ q.admits e = true ∧ side.matchId e ∈ chunk := by
  obtain ⟨he, hall⟩ := List.mem_filter.mp (mem_of_mem_ranked h)
  simp only [Bool.and_eq_true, List.contains_iff_mem] at hall
  exact ⟨he, hall.1.1, hall.1.2⟩

theorem candidateRows_complete {chunk otherChunk : List ι} (he : e ∈ edges)
    (hq : q.admits e = true) (hmatch : side.matchId e ∈ chunk)
    (hother : side.discoverId e ∈ otherChunk) :
    ∃ r ∈ candidateRows q side edges chunk otherChunk, side.discoverId r = side.discoverId e := by
  refine exists_mem_ranked (List.mem_filter.mpr ⟨he, ?_⟩)
  simp [hq, hmatch, hother]

theorem newNodeRows_sound {chunk : List ι} {limit : Nat}
    (h : e ∈ newNodeRows q side edges chunk limit) :
    e ∈ edges ∧ q.admits e = true ∧ side.matchId e ∈ chunk := by
  have hsorted := List.mem_of_mem_take h
  rw [List.mem_mergeSort] at hsorted
  obtain ⟨he, hall⟩ := List.mem_filter.mp (mem_of_mem_ranked hsorted)
  simp only [Bool.and_eq_true, List.contains_iff_mem] at hall
  exact ⟨he, hall.1, hall.2⟩

/-- A query that returns fewer rows than its limit has returned them all. -/
theorem newNodeRows_complete {chunk : List ι} {limit : Nat} (he : e ∈ edges)
    (hq : q.admits e = true) (hmatch : side.matchId e ∈ chunk)
    (hlength : (newNodeRows q side edges chunk limit).length < limit) :
    ∃ r ∈ newNodeRows q side edges chunk limit, side.discoverId r = side.discoverId e := by
  have hin : e ∈ edges.filter fun e => q.admits e && chunk.contains (side.matchId e) :=
    List.mem_filter.mpr ⟨he, by simp [hq, hmatch]⟩
  obtain ⟨r, hr, hsame⟩ : ∃ r ∈ ranked side _, side.discoverId r = _ := exists_mem_ranked hin
  refine ⟨r, ?_, hsame⟩
  unfold newNodeRows at hlength ⊢
  rw [List.length_take] at hlength
  rw [List.take_of_length_le (by omega), List.mem_mergeSort]
  exact hr

end Queries

/-! ## One level -/

namespace Level

variable {l : Level ι} {visited : InsertMap ι (VisitRecord ι)} {next : List ι} {v : ι}
  {rec : VisitRecord ι} {rows : List (EdgeRow ι)} {r e : EdgeRow ι}

/-- The record of the node that a row discovers. -/
def record (l : Level ι) (r : EdgeRow ι) : VisitRecord ι where
  edge := some r.step
  via := some (l.side.matchId r)
  depth := l.depth

/-- The map and the next frontier are those before with the rows added. -/
structure Visits (l : Level ι) (rows : List (EdgeRow ι)) (visited : InsertMap ι (VisitRecord ι))
    (next : List ι) (visited' : InsertMap ι (VisitRecord ι)) (next' : List ι) : Prop where
  keeps : ∀ v rec, visited.get v = some rec → visited'.get v = some rec
  origin : ∀ v rec, visited'.get v = some rec → visited.get v = some rec ∨
    (visited.get v = none ∧ l.other.get v = none ∧
      ∃ r ∈ rows, l.side.discoverId r = v ∧ rec = l.record r)
  covers : ∀ r ∈ rows, visited'.get (l.side.discoverId r) ≠ none ∨
    l.other.get (l.side.discoverId r) ≠ none
  next : ∀ v, v ∈ next' ↔ v ∈ next ∨ (visited.get v = none ∧ visited'.get v ≠ none)

theorem Visits.refl : l.Visits [] visited next visited next where
  keeps _ _ h := h
  origin _ _ h := .inl h
  covers _ h := by cases h
  next v := ⟨.inl, fun h => h.elim id fun ⟨hnone, hsome⟩ => absurd hnone hsome⟩

variable {visited₁ visited₂ : InsertMap ι (VisitRecord ι)} {next₁ next₂ : List ι}
  {rows' : List (EdgeRow ι)}

theorem Visits.trans (h : l.Visits rows visited next visited₁ next₁)
    (h' : l.Visits rows' visited₁ next₁ visited₂ next₂) :
    l.Visits (rows ++ rows') visited next visited₂ next₂ where
  keeps v rec hv := h'.keeps v rec (h.keeps v rec hv)
  origin v rec hv := by
    obtain hv | ⟨hnone, hother, r, hr, hd, hrec⟩ := h'.origin v rec hv
    · obtain hv | ⟨hnone, hother, r, hr, hd, hrec⟩ := h.origin v rec hv
      · exact .inl hv
      · exact .inr ⟨hnone, hother, r, List.mem_append_left _ hr, hd, hrec⟩
    · refine .inr ⟨?_, hother, r, List.mem_append_right _ hr, hd, hrec⟩
      cases hold : visited.get v with
      | none => rfl
      | some old =>
        rw [h.keeps v old hold] at hnone
        cases hnone
  covers r hr := by
    obtain hr | hr := List.mem_append.mp hr
    · refine (h.covers r hr).imp_left fun hsome => ?_
      obtain ⟨rec, hrec⟩ := Option.ne_none_iff_exists'.mp hsome
      rw [h'.keeps _ _ hrec]
      simp
    · exact h'.covers r hr
  next v := by
    have hmono : visited.get v ≠ none → visited₁.get v ≠ none := fun hsome => by
      obtain ⟨rec, hrec⟩ := Option.ne_none_iff_exists'.mp hsome
      rw [h.keeps _ _ hrec]
      simp
    have hmono' : visited₁.get v ≠ none → visited₂.get v ≠ none := fun hsome => by
      obtain ⟨rec, hrec⟩ := Option.ne_none_iff_exists'.mp hsome
      rw [h'.keeps _ _ hrec]
      simp
    rw [h'.next, h.next]
    tauto

theorem visit_visits (l : Level ι) (visited : InsertMap ι (VisitRecord ι)) (next : List ι)
    (r : EdgeRow ι) :
    l.Visits [r] visited next (l.visit (visited, next) r).1 (l.visit (visited, next) r).2 := by
  unfold visit
  dsimp only
  split
  · rename_i hknown
    have hrefl : l.Visits [] visited next visited next := .refl
    refine ⟨hrefl.keeps, fun v rec h => .inl h, ?_, hrefl.next⟩
    intro r' hr'
    rw [List.mem_singleton.mp hr']
    exact hknown.imp Option.isSome_iff_ne_none.mp Option.isSome_iff_ne_none.mp
  · rename_i hnew
    rw [not_or, Option.not_isSome_iff_eq_none, Option.not_isSome_iff_eq_none] at hnew
    obtain ⟨hnone, hother⟩ := hnew
    constructor
    · intro v rec hv
      have hne : v ≠ l.side.discoverId r := by
        rintro rfl
        rw [hnone] at hv
        cases hv
      rw [InsertMap.get_set_other hne, hv]
    · intro v rec hv
      by_cases hsame : v = l.side.discoverId r
      · subst hsame
        rw [InsertMap.get_set_self] at hv
        exact .inr ⟨hnone, hother, r, List.mem_singleton_self r, rfl, (Option.some.inj hv).symm⟩
      · rw [InsertMap.get_set_other hsame] at hv
        exact .inl hv
    · intro r' hr'
      rw [List.mem_singleton.mp hr', InsertMap.get_set_self]
      simp
    · intro v
      by_cases hsame : v = l.side.discoverId r
      · subst hsame
        simp [hnone, InsertMap.get_set_self]
      · rw [InsertMap.get_set_other hsame]
        simp [hsame]

theorem foldl_visits (l : Level ι) (rows : List (EdgeRow ι))
    (visited : InsertMap ι (VisitRecord ι)) (next : List ι) :
    l.Visits rows visited next (rows.foldl l.visit (visited, next)).1
      (rows.foldl l.visit (visited, next)).2 := by
  induction rows generalizing visited next with
  | nil => exact .refl
  | cons r rows ih =>
    have hrest := ih (l.visit (visited, next) r).1 (l.visit (visited, next) r).2
    exact (l.visit_visits visited next r).trans hrest

/-- A candidate is an edge from the frontier to a node of the other side. -/
def IsCandidate (l : Level ι) (frontier : List ι) (c : MeetingCandidate ι) : Prop :=
  ∃ e ∈ l.edges, l.filter.admits e = true ∧ l.side.matchId e ∈ frontier ∧
    c.via = l.side.matchId e ∧ c.nodeId = l.side.discoverId e ∧ c.edge = e.step ∧
    ∃ other, l.other.get c.nodeId = some other ∧ c.combinedDepth = l.depth + other.depth

variable {chunk frontier : List ι} (hperm : ∀ rows, (l.arrange rows).Perm rows)
include hperm

/-- A detected meeting is one edge from the frontier to the other side. -/
theorem detect_sound {c : MeetingCandidate ι} (hc : c ∈ l.detect chunk)
    (hsub : ∀ u ∈ chunk, u ∈ frontier) : l.IsCandidate frontier c := by
  obtain ⟨otherChunk, -, hc⟩ := List.mem_flatMap.mp hc
  obtain ⟨e, he, hc⟩ := List.mem_filterMap.mp hc
  obtain ⟨other, hother, rfl⟩ := Option.map_eq_some_iff.mp hc
  obtain ⟨hin, hq, hmatch⟩ := candidateRows_sound ((hperm _).mem_iff.mp he)
  exact ⟨e, hin, hq, hsub _ hmatch, rfl, rfl, rfl, other, hother, rfl⟩

/-- Without candidates no edge of the chunk leads to the other side. -/
theorem detect_complete (hnil : l.detect chunk = []) (he : e ∈ l.edges)
    (hq : l.filter.admits e = true) (hmatch : l.side.matchId e ∈ chunk) :
    l.other.get (l.side.discoverId e) = none := by
  cases hget : l.other.get (l.side.discoverId e) with
  | none => rfl
  | some other =>
    exfalso
    obtain ⟨p, hp, hkey⟩ : ∃ p ∈ l.other.entries, p.1 = l.side.discoverId e := by
      by_contra hno
      rw [InsertMap.get_eq_none_iff.mpr fun p hp hkey => hno ⟨p, hp, hkey⟩] at hget
      cases hget
    obtain ⟨otherChunk, hchunk, hmem⟩ : ∃ c ∈ slices candidateKeyChunkSize
        (l.other.entries.map (·.1)), l.side.discoverId e ∈ c :=
      (mem_slices (by decide)).mpr (List.mem_map.mpr ⟨p, hp, hkey⟩)
    obtain ⟨r, hr, hsame⟩ := candidateRows_complete he hq hmatch hmem
    have hin : (⟨l.side.discoverId r, l.depth + other.depth, r.step, l.side.matchId r⟩ :
        MeetingCandidate ι) ∈ l.detect chunk := by
      refine List.mem_flatMap.mpr ⟨otherChunk, hchunk, List.mem_filterMap.mpr
        ⟨r, (hperm _).mem_iff.mpr hr, ?_⟩⟩
      rw [hsame, hget]
      rfl
    rw [hnil] at hin
    cases hin

variable {candidates : List (MeetingCandidate ι)} {chunks : List (List ι)}

theorem expandChunks_candidates (hsub : ∀ chunk ∈ chunks, ∀ u ∈ chunk, u ∈ frontier)
    (hc : ∀ c ∈ candidates, l.IsCandidate frontier c) :
    ∀ c ∈ (l.expandChunks chunks visited next candidates).candidates,
      l.IsCandidate frontier c := by
  induction chunks generalizing visited next candidates with
  | nil => exact hc
  | cons chunk chunks ih =>
    have hc' : ∀ c ∈ candidates ++ l.detect chunk, l.IsCandidate frontier c := by
      intro c hmem
      obtain hmem | hmem := List.mem_append.mp hmem
      · exact hc c hmem
      · exact detect_sound hperm hmem (hsub chunk List.mem_cons_self)
    have hsub' : ∀ chunk ∈ chunks, ∀ u ∈ chunk, u ∈ frontier := fun chunk hmem =>
      hsub chunk (List.mem_cons_of_mem _ hmem)
    unfold expandChunks
    dsimp only
    split
    · exact ih hsub' hc'
    · split
      · exact hc'
      · split
        · exact hc'
        · exact ih hsub' hc'

omit hperm in
theorem expandChunks_ne_nil (hne : candidates ≠ []) :
    (l.expandChunks chunks visited next candidates).candidates ≠ [] := by
  induction chunks generalizing visited next candidates with
  | nil => exact hne
  | cons chunk chunks ih =>
    have hne' : candidates ++ l.detect chunk ≠ [] := by simp [hne]
    unfold expandChunks
    dsimp only
    rw [if_pos hne']
    exact ih hne'

omit hperm in
/-- The nodes that a level adds are those of rows that leave the frontier. -/
theorem expandChunks_visits (hsub : ∀ chunk ∈ chunks, ∀ u ∈ chunk, u ∈ frontier) :
    ∃ rows, (∀ r ∈ rows, r ∈ l.edges ∧ l.filter.admits r = true ∧ l.side.matchId r ∈ frontier) ∧
      l.Visits rows visited next (l.expandChunks chunks visited next candidates).visited
        (l.expandChunks chunks visited next candidates).next := by
  induction chunks generalizing visited next candidates with
  | nil => exact ⟨[], by simp, .refl⟩
  | cons chunk chunks ih =>
    have hsub' : ∀ chunk ∈ chunks, ∀ u ∈ chunk, u ∈ frontier := fun chunk hmem =>
      hsub chunk (List.mem_cons_of_mem _ hmem)
    unfold expandChunks
    dsimp only
    split
    · exact ih hsub'
    · split
      · exact ⟨[], by simp, .refl⟩
      · -- the rows of this chunk that are within the budget
        have hrows : ∀ n limit, ∀ r ∈
            (newNodeRows l.filter l.side l.edges chunk limit).take n,
            r ∈ l.edges ∧ l.filter.admits r = true ∧ l.side.matchId r ∈ frontier := by
          intro n limit r hr
          obtain ⟨hin, hq, hmatch⟩ := newNodeRows_sound (List.mem_of_mem_take hr)
          exact ⟨hin, hq, hsub chunk List.mem_cons_self _ hmatch⟩
        split
        · exact ⟨_, hrows _ _, l.foldl_visits _ visited next⟩
        · obtain ⟨rest, hrest, hvisits⟩ := ih hsub'
          refine ⟨_, fun r hr => ?_, (l.foldl_visits _ visited next).trans hvisits⟩
          obtain hr | hr := List.mem_append.mp hr
          · exact hrows _ _ r hr
          · exact hrest r hr

/-- A level that was not cut off and did not meet the other side has every successor of the
    frontier. -/
theorem expandChunks_complete (hnil : (l.expandChunks chunks visited next []).candidates = [])
    (hwhole : (l.expandChunks chunks visited next []).truncated = false)
    (hchunk : chunk ∈ chunks) (he : e ∈ l.edges) (hq : l.filter.admits e = true)
    (hmatch : l.side.matchId e ∈ chunk) :
    l.other.get (l.side.discoverId e) = none ∧
      (l.expandChunks chunks visited next []).visited.get (l.side.discoverId e) ≠ none := by
  induction chunks generalizing visited next with
  | nil => cases hchunk
  | cons first chunks ih =>
    unfold expandChunks at hnil hwhole ⊢
    dsimp only at hnil hwhole ⊢
    rw [List.nil_append] at hnil hwhole ⊢
    split at hnil
    · rename_i hfound
      exact absurd hnil (expandChunks_ne_nil hfound)
    · rename_i hnone
      have hdetect : l.detect first = [] := by simpa using hnone
      rw [if_neg hnone] at hwhole ⊢
      split at hwhole
      · cases hwhole
      · rename_i hroom
        rw [if_neg hroom] at hnil ⊢
        split at hwhole
        · cases hwhole
        · rename_i hall
          rw [if_neg hall] at hnil ⊢
          rw [hdetect] at hnil hwhole ⊢
          obtain rfl | hchunk := List.mem_cons.mp hchunk
          · -- every row of this chunk was visited, and what is visited stays
            have hother := detect_complete hperm hdetect he hq hmatch
            obtain ⟨r, hr, hsame⟩ := newNodeRows_complete he hq hmatch
              (Nat.lt_succ_of_le (Nat.le_of_not_lt hall))
            rw [← List.take_of_length_le (Nat.le_of_not_lt hall)] at hr
            have hfirst := (l.foldl_visits _ visited next).covers r hr
            rw [hsame, or_iff_left (not_not.mpr hother)] at hfirst
            refine ⟨hother, fun hlost => ?_⟩
            have hsub : ∀ c ∈ chunks, ∀ u ∈ c, u ∈ chunks.flatten :=
              fun c hc u hu => List.mem_flatten.mpr ⟨c, hc, hu⟩
            obtain ⟨rows, -, hlater⟩ := expandChunks_visits hsub
            obtain ⟨rec, hrec⟩ := Option.ne_none_iff_exists'.mp hfirst
            rw [hlater.keeps _ _ hrec] at hlost
            cases hlost
          · exact ih hnil hwhole hchunk

end Level

/-! ## One side -/

/-- The relation that a side searches along, from its own end. -/
def Side.rel (q : EdgeFilter ι) (edges : List (EdgeRow ι)) : Side → ι → ι → Prop
  | .forward => Follows q edges
  | .backward => flip (Follows q edges)

def Side.opposite : Side → Side
  | .forward => .backward
  | .backward => .forward

/-- A path between the ends of a side, read along the edges. -/
def Side.Connects (q : EdgeFilter ι) (edges : List (EdgeRow ι)) (p : List (GraphCallPathStep ι))
    (root v : ι) : Side → Prop
  | .forward => IsPath q edges p.reverse root v
  | .backward => IsPath q edges p v root

def depths (visited : InsertMap ι (VisitRecord ι)) (v : ι) : Option Nat :=
  (visited.get v).map (·.depth)

/-- Every record is the root's or has an edge to a node whose record is one level nearer. -/
def Traced (q : EdgeFilter ι) (edges : List (EdgeRow ι)) (side : Side) (root : ι)
    (visited : InsertMap ι (VisitRecord ι)) : Prop :=
  ∀ v rec, visited.get v = some rec → (v = root ∧ rec = ⟨none, none, 0⟩) ∨
    ∃ e ∈ edges, q.admits e = true ∧ side.discoverId e = v ∧ rec.edge = some e.step ∧
      rec.via = some (side.matchId e) ∧
      ∃ before, visited.get (side.matchId e) = some before ∧ rec.depth = before.depth + 1

omit [LinearOrder ι] in
theorem bestCandidate_mem (c : MeetingCandidate ι) (cs : List (MeetingCandidate ι)) :
    bestCandidate c cs ∈ c :: cs := by
  induction cs generalizing c with
  | nil => exact List.mem_singleton_self c
  | cons x cs ih =>
    show bestCandidate (if x.combinedDepth < c.combinedDepth then x else c) cs ∈ c :: x :: cs
    split
    · exact List.mem_cons_of_mem _ (ih x)
    · obtain hc | hcs := List.mem_cons.mp (ih c)
      · exact List.mem_cons.mpr (.inl hc)
      · exact List.mem_cons_of_mem _ (List.mem_cons_of_mem _ hcs)

/-- What holds of a side between two rounds. -/
structure Half.Inv (q : EdgeFilter ι) (edges : List (EdgeRow ι)) (side : Side) (root : ι)
    (h : Half ι) : Prop where
  ball : Ball (side.rel q edges) root (depths h.visited) h.frontier h.depth
  traced : Traced q edges side root h.visited

section Sides

variable {q : EdgeFilter ι} {edges : List (EdgeRow ι)} {side : Side} {root root' u v : ι}
  {visited visited' : InsertMap ι (VisitRecord ι)} {rec : VisitRecord ι}

theorem Side.rel_iff : side.rel q edges u v ↔
    ∃ e ∈ edges, q.admits e = true ∧ side.matchId e = u ∧ side.discoverId e = v := by
  cases side with
  | forward => exact Iff.rfl
  | backward =>
    constructor
    · rintro ⟨e, he, hq, hsrc, hdst⟩
      exact ⟨e, he, hq, hdst, hsrc⟩
    · rintro ⟨e, he, hq, hdst, hsrc⟩
      exact ⟨e, he, hq, hsrc, hdst⟩

theorem Side.rel_opposite : side.opposite.rel q edges = flip (side.rel q edges) := by
  cases side <;> rfl

theorem Side.Connects.cons {e : EdgeRow ι} {p : List (GraphCallPathStep ι)} (he : e ∈ edges)
    (hq : q.admits e = true) (h : side.Connects q edges p root (side.matchId e)) :
    side.Connects q edges (e.step :: p) root (side.discoverId e) := by
  have hone := IsPath.single he hq
  cases side with
  | forward =>
    show IsPath q edges (e.step :: p).reverse root e.dstId
    rw [List.reverse_cons]
    exact IsPath.append h hone
  | backward => exact hone.append h

theorem depths_eq_none : depths visited v = none ↔ visited.get v = none :=
  Option.map_eq_none_iff

theorem depths_of_get (h : visited.get v = some rec) : depths visited v = some rec.depth := by
  rw [depths, h]
  rfl

/-- The way back from a node has as many edges as its depth says, and connects it to the root. -/
theorem Traced.trace (h : Traced q edges side root visited) {fuel : Nat}
    (hv : visited.get v = some rec) (hfuel : rec.depth ≤ fuel) :
    ∃ p, Ontology.trace visited fuel v = .ok p ∧ p.length = rec.depth ∧
      side.Connects q edges p root v := by
  induction fuel generalizing v rec with
  | zero =>
    obtain ⟨rfl, rfl⟩ | ⟨e, -, -, -, -, -, before, -, hdepth⟩ := h v rec hv
    · refine ⟨[], ?_, rfl, ?_⟩
      · rw [Ontology.trace, hv]
      · cases side <;> rfl
    · omega
  | succ fuel ih =>
    obtain ⟨rfl, rfl⟩ | ⟨e, he, hq, hdiscover, hedge, hvia, before, hbefore, hdepth⟩ := h v rec hv
    · refine ⟨[], ?_, rfl, ?_⟩
      · rw [Ontology.trace, hv]
      · cases side <;> rfl
    · obtain ⟨p, hp, hlength, hconnects⟩ := ih hbefore (by omega)
      refine ⟨e.step :: p, ?_, ?_, ?_⟩
      · rw [Ontology.trace, hv]
        simp only [hedge, hvia, hp]
      · rw [List.length_cons, hlength, hdepth]
      · rw [← hdiscover]
        exact hconnects.cons he hq

theorem Half.start_inv (root : ι) : (Half.start root).Inv q edges side root := by
  have hget : ∀ v, (Half.start root).visited.get v =
      if root = v then some ⟨none, none, 0⟩ else none := by
    intro v
    unfold Half.start InsertMap.get
    by_cases hv : root = v <;> simp [hv]
  constructor
  · refine Ball.start (fun v k => ?_) fun v => List.mem_singleton
    rw [depths, hget]
    split
    · rename_i hv
      simp [hv, eq_comm]
    · rename_i hv
      simp [Ne.symm hv]
  · intro v rec hv
    rw [hget] at hv
    split at hv
    · rename_i hroot
      exact .inl ⟨hroot.symm, (Option.some.inj hv).symm⟩
    · cases hv

/-- Adding a record one level beyond a node that is there. -/
theorem Traced.set (h : Traced q edges side root visited) {e : EdgeRow ι} {before : VisitRecord ι}
    {d : Nat} (hnew : visited.get (side.discoverId e) = none) (he : e ∈ edges)
    (hq : q.admits e = true) (hbefore : visited.get (side.matchId e) = some before)
    (hdepth : d = before.depth + 1) :
    Traced q edges side root
      (visited.set (side.discoverId e) ⟨some e.step, some (side.matchId e), d⟩) := by
  have hkeeps : ∀ w old, visited.get w = some old →
      (visited.set (side.discoverId e) ⟨some e.step, some (side.matchId e), d⟩).get w =
        some old := by
    intro w old hold
    rw [InsertMap.get_set_other, hold]
    rintro rfl
    rw [hnew] at hold
    cases hold
  intro v rec hv
  by_cases hsame : v = side.discoverId e
  · subst hsame
    rw [InsertMap.get_set_self] at hv
    cases hv
    exact .inr ⟨e, he, hq, rfl, rfl, rfl, before, hkeeps _ _ hbefore, hdepth⟩
  · rw [InsertMap.get_set_other hsame] at hv
    obtain hroot | ⟨e', he', hq', hdiscover, hedge, hvia, before', hbefore', hdepth'⟩ := h v rec hv
    · exact .inl hroot
    · exact .inr ⟨e', he', hq', hdiscover, hedge, hvia, before', hkeeps _ _ hbefore', hdepth'⟩

end Sides

/-! ## One level of one side -/

section Expand

variable {q : EdgeFilter ι} {edges : List (EdgeRow ι)} {side : Side} {root root' v : ι}
  {this other : Half ι} {rec : VisitRecord ι} {arrange : List (EdgeRow ι) → List (EdgeRow ι)}

theorem Half.Inv.get_of_frontier (h : this.Inv q edges side root) (hv : v ∈ this.frontier) :
    ∃ rec, this.visited.get v = some rec ∧ rec.depth = this.depth := by
  have hdist := (h.ball.frontier v).mp hv
  have hdepth := (h.ball.depth v this.depth).mpr ⟨hdist, Nat.le_refl _⟩
  exact Option.map_eq_some_iff.mp hdepth

/-- The level that an expansion computes. -/
abbrev Half.level (arrange : List (EdgeRow ι) → List (EdgeRow ι)) (edges : List (EdgeRow ι))
    (q : EdgeFilter ι) (side : Side) (this other : Half ι) : Level ι where
  arrange := arrange
  edges := edges
  filter := q
  side := side
  other := other.visited
  depth := this.depth + 1

/-- Its result. -/
abbrev Half.expanded (arrange : List (EdgeRow ι) → List (EdgeRow ι)) (edges : List (EdgeRow ι))
    (q : EdgeFilter ι) (side : Side) (this other : Half ι) : ExpandSideResult ι :=
  (Half.level arrange edges q side this other).expandOneSide this.frontier this.visited

omit [LinearOrder ι] in
theorem mem_chunk_frontier {frontier : List ι} :
    ∀ chunk ∈ slices frontierChunkSize frontier, ∀ u ∈ chunk, u ∈ frontier :=
  fun chunk hchunk _ hu => (mem_slices (by decide)).mp ⟨chunk, hchunk, hu⟩

/-- To expand a half visits ends of edges from its frontier. -/
theorem Half.expanded_visits : ∃ rows,
    (∀ r ∈ rows, r ∈ edges ∧ q.admits r = true ∧ side.matchId r ∈ this.frontier) ∧
    (Half.level arrange edges q side this other).Visits rows this.visited []
      (Half.expanded arrange edges q side this other).visited
      (Half.expanded arrange edges q side this other).next :=
  Level.expandChunks_visits (l := Half.level arrange edges q side this other) mem_chunk_frontier

theorem Half.expand_nil (hnil : (Half.expanded arrange edges q side this other).candidates = []) :
    this.expand arrange edges q side other =
      (⟨(Half.expanded arrange edges q side this other).visited,
        (Half.expanded arrange edges q side this other).next, this.depth + 1⟩, none,
        (Half.expanded arrange edges q side this other).truncated) := by
  unfold Half.expand
  dsimp only
  rw [hnil]

/-- On a meeting at a node that is new on this side, that node gets its record. -/
theorem Half.expand_cons {c : MeetingCandidate ι} {cs : List (MeetingCandidate ι)}
    (hcons : (Half.expanded arrange edges q side this other).candidates = c :: cs)
    (hnew : (Half.expanded arrange edges q side this other).visited.get
      (bestCandidate c cs).nodeId = none) :
    this.expand arrange edges q side other =
      (⟨(Half.expanded arrange edges q side this other).visited.set (bestCandidate c cs).nodeId
          ⟨some (bestCandidate c cs).edge, some (bestCandidate c cs).via, this.depth + 1⟩,
        (Half.expanded arrange edges q side this other).next, this.depth + 1⟩,
        some (bestCandidate c cs).nodeId, false) := by
  unfold Half.expand
  dsimp only
  rw [hcons]
  dsimp only
  rw [hnew]
  rfl

/-- No successor of the frontier is missed by a level that was not cut off and met nothing. -/
theorem Half.expanded_complete (hperm : ∀ rows, (arrange rows).Perm rows)
    (hnil : (Half.expanded arrange edges q side this other).candidates = [])
    (hwhole : (Half.expanded arrange edges q side this other).truncated = false)
    {u : ι} (hu : u ∈ this.frontier) (huv : side.rel q edges u v) :
    other.visited.get v = none ∧
      (Half.expanded arrange edges q side this other).visited.get v ≠ none := by
  obtain ⟨e, he, hq, rfl, rfl⟩ := Side.rel_iff.mp huv
  obtain ⟨chunk, hchunk, hmatch⟩ := (mem_slices (by decide : 0 < frontierChunkSize)).mpr hu
  exact Level.expandChunks_complete (l := Half.level arrange edges q side this other) hperm hnil
    hwhole hchunk he hq hmatch

theorem Half.expanded_candidate (hperm : ∀ rows, (arrange rows).Perm rows) {c : MeetingCandidate ι}
    (hc : c ∈ (Half.expanded arrange edges q side this other).candidates) :
    (Half.level arrange edges q side this other).IsCandidate this.frontier c :=
  Level.expandChunks_candidates hperm mem_chunk_frontier (by simp) c hc

variable (ht : this.Inv q edges side root)
include ht

theorem Half.Inv.expanded_traced :
    Traced q edges side root (Half.expanded arrange edges q side this other).visited := by
  obtain ⟨rows, hrows, hvisits⟩ : ∃ rows, _ ∧ (Half.level arrange edges q side this other).Visits
    rows _ _ _ _ := Half.expanded_visits
  intro v rec hv
  obtain hold | ⟨-, -, r, hr, hdiscover, rfl⟩ := hvisits.origin v rec hv
  · obtain hroot | ⟨e, he, hq, hdiscover, hedge, hvia, before, hbefore, hdepth⟩ :=
      ht.traced v rec hold
    · exact .inl hroot
    · exact .inr ⟨e, he, hq, hdiscover, hedge, hvia, before, hvisits.keeps _ _ hbefore, hdepth⟩
  · obtain ⟨he, hq, hmatch⟩ := hrows r hr
    obtain ⟨before, hbefore, hdepth⟩ := ht.get_of_frontier hmatch
    exact .inr ⟨r, he, hq, hdiscover, rfl, rfl, before, hvisits.keeps _ _ hbefore,
      congrArg (· + 1) hdepth.symm⟩

variable (hperm : ∀ rows, (arrange rows).Perm rows)
include hperm

/-- Without a meeting, the half has then what is one step further. -/
theorem Half.Inv.expanded_ball
    (hnil : (Half.expanded arrange edges q side this other).candidates = [])
    (hwhole : (Half.expanded arrange edges q side this other).truncated = false) :
    Ball (side.rel q edges) root
      (depths (Half.expanded arrange edges q side this other).visited)
      (Half.expanded arrange edges q side this other).next (this.depth + 1) := by
  obtain ⟨rows, hrows, hvisits⟩ : ∃ rows, _ ∧ (Half.level arrange edges q side this other).Visits
    rows _ _ _ _ := Half.expanded_visits
  have hrow : ∀ r ∈ rows, ∃ u ∈ this.frontier, side.rel q edges u (side.discoverId r) := by
    intro r hr
    obtain ⟨he, hq, hmatch⟩ := hrows r hr
    exact ⟨_, hmatch, Side.rel_iff.mpr ⟨r, he, hq, rfl, rfl⟩⟩
  refine ht.ball.next (fun v k => ?_) fun v => ?_
  · constructor
    · intro hk
      obtain ⟨rec, hv, rfl⟩ := Option.map_eq_some_iff.mp hk
      obtain hold | ⟨hnone, -, r, hr, rfl, rfl⟩ := hvisits.origin v rec hv
      · exact .inl (depths_of_get hold)
      · exact .inr ⟨rfl, depths_eq_none.mpr hnone, hrow r hr⟩
    · rintro (hk | ⟨rfl, hnone, u, hu, huv⟩)
      · obtain ⟨rec, hv, rfl⟩ := Option.map_eq_some_iff.mp hk
        exact depths_of_get (hvisits.keeps v rec hv)
      · obtain ⟨-, hsome⟩ := Half.expanded_complete hperm hnil hwhole hu huv
        obtain ⟨rec, hrec⟩ := Option.ne_none_iff_exists'.mp hsome
        rw [depths_of_get hrec]
        obtain hold | ⟨-, -, r, -, -, rfl⟩ := hvisits.origin v rec hrec
        · rw [depths_eq_none, hold] at hnone
          cases hnone
        · rfl
  · rw [hvisits.next, depths_eq_none]
    constructor
    · rintro (hmem | ⟨hnone, hsome⟩)
      · cases hmem
      · obtain ⟨rec, hrec⟩ := Option.ne_none_iff_exists'.mp hsome
        obtain hold | ⟨-, -, r, hr, rfl, -⟩ := hvisits.origin v rec hrec
        · rw [hold] at hnone
          cases hnone
        · exact ⟨hnone, hrow r hr⟩
    · rintro ⟨hnone, u, hu, huv⟩
      exact .inr ⟨hnone, (Half.expanded_complete hperm hnil hwhole hu huv).2⟩

variable (ho : other.Inv q edges side.opposite root')
  (hapart : ∀ m ≤ this.depth + other.depth, ¬Steps (side.rel q edges) m root root')
include ho hapart

omit hperm in
/-- Until a meeting the halves have nothing in common. -/
theorem Half.Inv.disjoint (hv : this.visited.get v = some rec) : other.visited.get v = none := by
  have hback := ho.ball
  rw [Side.rel_opposite] at hback
  exact depths_eq_none.mp (ht.ball.disjoint hback hapart (depths_of_get hv))

omit hperm in
/-- A node of the other side has no record on this one. -/
theorem Half.Inv.not_expanded (hv : other.visited.get v = some rec) :
    (Half.expanded arrange edges q side this other).visited.get v = none := by
  obtain ⟨rows, -, hvisits⟩ : ∃ rows, _ ∧ (Half.level arrange edges q side this other).Visits
    rows _ _ _ _ := Half.expanded_visits
  cases hget : (Half.expanded arrange edges q side this other).visited.get v with
  | none => rfl
  | some old =>
    obtain hold | ⟨-, hother, -⟩ := hvisits.origin _ _ hget
    · rw [ht.disjoint ho hapart hold] at hv
      cases hv
    · rw [hother] at hv
      cases hv

/-- A meeting is on a shortest path, and both sides lead back from it. -/
theorem Half.Inv.expand_found (hfound : (this.expand arrange edges q side other).2.1 = some v) :
    Traced q edges side root (this.expand arrange edges q side other).1.visited ∧
    (∃ rec, (this.expand arrange edges q side other).1.visited.get v = some rec ∧
      rec.depth = this.depth + 1) ∧
    (∃ rec', other.visited.get v = some rec' ∧ rec'.depth = other.depth) ∧
    IsDist (side.rel q edges) root root' (this.depth + 1 + other.depth) := by
  have hback := ho.ball
  rw [Side.rel_opposite] at hback
  cases hcands : (Half.expanded arrange edges q side this other).candidates with
  | nil =>
    rw [Half.expand_nil hcands] at hfound
    cases hfound
  | cons c cs =>
    have hbest : bestCandidate c cs ∈ (Half.expanded arrange edges q side this other).candidates :=
      hcands ▸ bestCandidate_mem c cs
    obtain ⟨e, he, hq, hmatch, hvia, hnode, hedge, rec', hrec', -⟩ :=
      Half.expanded_candidate hperm hbest
    obtain ⟨hdepth', hdist⟩ := ht.ball.eq_of_meet hback hapart hmatch
      (Side.rel_iff.mpr ⟨e, he, hq, rfl, hnode.symm⟩) (depths_of_get hrec')
    have hnew : (Half.expanded arrange edges q side this other).visited.get
        (bestCandidate c cs).nodeId = none := ht.not_expanded ho hapart hrec'
    rw [Half.expand_cons hcands hnew] at hfound ⊢
    cases hfound
    obtain ⟨before, hbefore, hbeforeDepth⟩ := ht.get_of_frontier hmatch
    obtain ⟨rows, -, hvisits⟩ : ∃ rows, _ ∧ (Half.level arrange edges q side this other).Visits
      rows _ _ _ _ := Half.expanded_visits
    have htraced : Traced q edges side root
        (Half.expanded arrange edges q side this other).visited := ht.expanded_traced
    have hset := htraced.set (hnode ▸ hnew) he hq (hvisits.keeps _ _ hbefore)
      (congrArg (· + 1) hbeforeDepth.symm)
    rw [hvia, hedge]
    refine ⟨?_, ⟨_, InsertMap.get_set_self _ _ _, rfl⟩, ⟨rec', hrec', hdepth'⟩, hdist⟩
    rw [hnode]
    exact hset

/-- Without a meeting, a side that was not cut off is the next ball, and the balls are still
    apart. -/
theorem Half.Inv.expand_apart (hnone : (this.expand arrange edges q side other).2.1 = none)
    (hwhole : (this.expand arrange edges q side other).2.2 = false) :
    (this.expand arrange edges q side other).1.Inv q edges side root ∧
    ∀ m ≤ this.depth + 1 + other.depth, ¬Steps (side.rel q edges) m root root' := by
  have hback := ho.ball
  rw [Side.rel_opposite] at hback
  cases hcands : (Half.expanded arrange edges q side this other).candidates with
  | cons c cs =>
    have hbest : bestCandidate c cs ∈ (Half.expanded arrange edges q side this other).candidates :=
      hcands ▸ bestCandidate_mem c cs
    obtain ⟨e, -, -, -, -, -, -, rec', hrec', -⟩ := Half.expanded_candidate hperm hbest
    rw [Half.expand_cons hcands (ht.not_expanded ho hapart hrec')] at hnone
    cases hnone
  | nil =>
    rw [Half.expand_nil hcands] at hwhole ⊢
    have hball := ht.expanded_ball hperm hcands hwhole
    refine ⟨⟨hball, ht.expanded_traced⟩, fun m hm hsteps => ?_⟩
    obtain hlt | rfl := Nat.lt_or_eq_of_le hm
    · exact hapart m (by omega) hsteps
    · obtain ⟨u, hu, v, huv, hmet⟩ := ht.ball.exists_meet hback hapart hsteps
      obtain ⟨hother, -⟩ := Half.expanded_complete hperm hcands hwhole hu huv
      rw [depths_eq_none.mpr hother] at hmet
      cases hmet

omit ht hperm ho hapart in
theorem Half.expand_depth :
    (this.expand arrange edges q side other).1.depth = this.depth + 1 := by
  unfold Half.expand
  dsimp only
  split <;> rfl

end Expand

/-! ## The rounds -/

/-- What holds before every round. -/
structure CallPathSearch.Inv (q : EdgeFilter ι) (edges : List (EdgeRow ι)) (u v : ι)
    (s : CallPathSearch ι) : Prop where
  forward : s.forward.Inv q edges .forward u
  backward : s.backward.Inv q edges .backward v
  apart : ∀ m ≤ s.forward.depth + s.backward.depth, ¬Steps (Follows q edges) m u v

/-- The search has met at `w`, on a shortest path of at most `limit` edges. -/
structure CallPathSearch.Found (q : EdgeFilter ι) (edges : List (EdgeRow ι)) (u v : ι) (limit : Nat)
    (s : CallPathSearch ι) (w : ι) : Prop where
  forward : Traced q edges .forward u s.forward.visited
  backward : Traced q edges .backward v s.backward.visited
  record : ∃ rec, s.forward.visited.get w = some rec ∧ rec.depth = s.forward.depth
  record' : ∃ rec, s.backward.visited.get w = some rec ∧ rec.depth = s.backward.depth
  dist : IsDist (Follows q edges) u v (s.forward.depth + s.backward.depth)
  within : s.forward.depth + s.backward.depth ≤ limit

section Rounds

variable {q : EdgeFilter ι} {edges : List (EdgeRow ι)} {u v w : ι} {s : CallPathSearch ι}
  {arrange : List (EdgeRow ι) → List (EdgeRow ι)}

/-- A round of the forward side. -/
abbrev CallPathSearch.forwardRound (arrange : List (EdgeRow ι) → List (EdgeRow ι))
    (edges : List (EdgeRow ι)) (q : EdgeFilter ι) (s : CallPathSearch ι) : CallPathSearch ι where
  forward := (s.forward.expand arrange edges q .forward s.backward).1
  backward := s.backward
  forwardTurn := !s.forwardTurn
  meetingId := (s.forward.expand arrange edges q .forward s.backward).2.1
  truncated := (s.forward.expand arrange edges q .forward s.backward).2.2

/-- A round of the backward side. -/
abbrev CallPathSearch.backwardRound (arrange : List (EdgeRow ι) → List (EdgeRow ι))
    (edges : List (EdgeRow ι)) (q : EdgeFilter ι) (s : CallPathSearch ι) : CallPathSearch ι where
  forward := s.forward
  backward := (s.backward.expand arrange edges q .backward s.forward).1
  forwardTurn := !s.forwardTurn
  meetingId := (s.backward.expand arrange edges q .backward s.forward).2.1
  truncated := (s.backward.expand arrange edges q .backward s.forward).2.2

/-- A round goes forward or backward, and with no frontier left there is none. -/
theorem CallPathSearch.rounds_succ (arrange : List (EdgeRow ι) → List (EdgeRow ι))
    (edges : List (EdgeRow ι)) (q : EdgeFilter ι) (s : CallPathSearch ι) (n : Nat) :
    (s.forward.frontier = [] ∧ s.backward.frontier = [] ∧ s.rounds arrange edges q (n + 1) = s) ∨
    ∃ s', (s' = s.forwardRound arrange edges q ∨ s' = s.backwardRound arrange edges q) ∧
      s.rounds arrange edges q (n + 1) =
        if s'.meetingId.isSome ∨ s'.truncated then s' else s'.rounds arrange edges q n := by
  rw [CallPathSearch.rounds]
  dsimp only
  by_cases hforward : if s.forwardTurn then s.forward.frontier ≠ []
      else s.forward.frontier ≠ [] ∧ s.backward.frontier = []
  · rw [if_pos hforward]
    exact .inr ⟨_, .inl rfl, rfl⟩
  · rw [if_neg hforward]
    by_cases hback : s.backward.frontier = []
    · rw [if_neg (not_not.mpr hback)]
      refine .inl ⟨?_, hback, rfl⟩
      split at hforward
      · exact not_not.mp hforward
      · exact not_not.mp fun hne => hforward ⟨hne, hback⟩
    · rw [if_pos hback]
      exact .inr ⟨_, .inr rfl, rfl⟩

variable (hperm : ∀ rows, (arrange rows).Perm rows)
include hperm

/-- After a round the search has met, or was cut off, or is one level further. -/
theorem CallPathSearch.Inv.round (h : s.Inv q edges u v) {s' : CallPathSearch ι}
    (hs' : s' = s.forwardRound arrange edges q ∨ s' = s.backwardRound arrange edges q) :
    (∀ w, s'.meetingId = some w →
      s'.Found q edges u v (s.forward.depth + s.backward.depth + 1) w) ∧
    (s'.meetingId = none → s'.truncated = false → s'.Inv q edges u v) ∧
    s'.forward.depth + s'.backward.depth = s.forward.depth + s.backward.depth + 1 := by
  obtain ⟨hf, hb, hapart⟩ := h
  obtain rfl | rfl := hs'
  · have hdepth : (s.forward.expand arrange edges q .forward s.backward).1.depth =
        s.forward.depth + 1 := Half.expand_depth
    have hother : (s.forwardRound arrange edges q).backward.depth = s.backward.depth := rfl
    refine ⟨fun w hw => ?_, fun hnone hwhole => ?_, ?_⟩
    · obtain ⟨htraced, ⟨rec, hrec, hrecDepth⟩, hrec', hdist⟩ := hf.expand_found hperm hb hapart hw
      exact ⟨htraced, hb.traced, ⟨rec, hrec, hrecDepth.trans hdepth.symm⟩, hrec',
        hdepth ▸ hdist, by rw [hdepth]; omega⟩
    · obtain ⟨hinv, hapart'⟩ := hf.expand_apart hperm hb hapart hnone hwhole
      exact ⟨hinv, hb, fun m hm => hapart' m (hdepth ▸ hm)⟩
    · rw [hdepth]
      omega
  · have hdepth : (s.backward.expand arrange edges q .backward s.forward).1.depth =
        s.backward.depth + 1 := Half.expand_depth
    have hother : (s.backwardRound arrange edges q).forward.depth = s.forward.depth := rfl
    have hapart' : ∀ m ≤ s.backward.depth + s.forward.depth,
        ¬Steps (Side.rel q edges .backward) m v u :=
      fun m hm hsteps => hapart m (by omega) hsteps.backward
    refine ⟨fun w hw => ?_, fun hnone hwhole => ?_, ?_⟩
    · obtain ⟨htraced, ⟨rec, hrec, hrecDepth⟩, hrec', hdist⟩ := hb.expand_found hperm hf hapart' hw
      have hdist' := hdist.backward
      rw [← hdepth, Nat.add_comm] at hdist'
      exact ⟨hf.traced, htraced, hrec', ⟨rec, hrec, hrecDepth.trans hdepth.symm⟩, hdist',
        by rw [hdepth]; omega⟩
    · obtain ⟨hinv, hnext⟩ := hb.expand_apart hperm hf hapart' hnone hwhole
      refine ⟨hf, hinv, fun m hm hsteps => hnext m ?_ hsteps.backward⟩
      rw [hdepth] at hm
      omega
    · rw [hdepth]
      omega

/-- The rounds end with a meeting on a shortest path, or were cut off, or there is no path within
    the limit. -/
theorem CallPathSearch.Inv.rounds (h : s.Inv q edges u v) (hnone : s.meetingId = none)
    (hwhole : s.truncated = false) (n : Nat) :
    (∀ w, (s.rounds arrange edges q n).meetingId = some w → (s.rounds arrange edges q n).Found q
      edges u v (s.forward.depth + s.backward.depth + n) w) ∧
    ((s.rounds arrange edges q n).meetingId = none →
      (s.rounds arrange edges q n).truncated = false →
      ∀ m ≤ s.forward.depth + s.backward.depth + n, ¬Steps (Follows q edges) m u v) := by
  induction n generalizing s with
  | zero =>
    refine ⟨fun w hw => ?_, fun _ _ => h.apart⟩
    rw [CallPathSearch.rounds, hnone] at hw
    cases hw
  | succ n ih =>
    obtain ⟨hf, hb, hstop⟩ | ⟨s', hs', hnext⟩ := s.rounds_succ arrange edges q n
    · rw [hstop]
      refine ⟨fun w hw => ?_, fun _ _ m _ => ?_⟩
      · rw [hnone] at hw
        cases hw
      · have hball := h.forward.ball
        rw [hf] at hball
        exact hball.none_beyond fun k hk => h.apart k (by omega)
    · obtain ⟨hfound, hinv, hdepth⟩ := h.round hperm hs'
      rw [hnext]
      split
      · rename_i hend
        refine ⟨fun w hw => ?_, fun hno hall => ?_⟩
        · have := hfound w hw
          exact { this with within := by have := this.within; omega }
        · simp [hno, hall] at hend
      · rename_i hgo
        rw [not_or, Option.not_isSome_iff_eq_none, Bool.not_eq_true] at hgo
        have hrest := ih (hinv hgo.1 hgo.2) hgo.1 hgo.2
        rw [hdepth, Nat.add_assoc, Nat.add_comm 1 n] at hrest
        exact hrest

end Rounds

/-! ## The search -/

/-- The hop limit of a request, and the bound that is in force for every request. -/
def WithinHops (input : GraphCallPathInput ι) (n : Nat) : Prop :=
  (∀ m, input.maxHops = some m → (n : ℚ) ≤ m) ∧ n ≤ maxCallPathHops

/-- The confidence of a path: the least along it, and at most 1. -/
def IsPathConfidence (p : List (GraphCallPathStep ι)) (c : ℚ) : Prop :=
  (∀ st ∈ p, c ≤ st.confidence) ∧
    ((∃ st ∈ p, st.confidence = c) ∨ (c = 1 ∧ ∀ st ∈ p, 1 < st.confidence))

/-- What a plain search by levels says of two nodes, where `within` is the limit. -/
structure Agrees (q : EdgeFilter ι) (edges : List (EdgeRow ι)) (u v : ι) (within : Nat → Prop)
    (r : GraphCallPathResult ι) : Prop where
  path : r.found = true → IsPath q edges r.path u v ∧ within r.path.length ∧ r.hops = r.path.length
  shortest : r.found = true → ∀ p, IsPath q edges p u v → r.path.length ≤ p.length
  confidence : r.found = true → ∃ c, r.pathConfidence = some c ∧ IsPathConfidence r.path c
  missing : r.found = false → r.truncated = false → ∀ p, IsPath q edges p u v → ¬within p.length

omit [LinearOrder ι] in
theorem isPathConfidence_foldl (p : List (GraphCallPathStep ι)) (c : ℚ) :
    (p.map (·.confidence)).foldl min c ≤ c ∧
    (∀ st ∈ p, (p.map (·.confidence)).foldl min c ≤ st.confidence) ∧
    ((∃ st ∈ p, st.confidence = (p.map (·.confidence)).foldl min c) ∨
      ((p.map (·.confidence)).foldl min c = c ∧ ∀ st ∈ p, c < st.confidence)) := by
  induction p generalizing c with
  | nil => exact ⟨le_refl c, by simp, .inr ⟨rfl, by simp⟩⟩
  | cons x p ih =>
    obtain ⟨hle, hall, hattained⟩ := ih (min c x.confidence)
    rw [List.map_cons, List.foldl_cons]
    refine ⟨hle.trans (min_le_left _ _), ?_, ?_⟩
    · intro st hst
      obtain rfl | hst := List.mem_cons.mp hst
      · exact hle.trans (min_le_right _ _)
      · exact hall st hst
    · obtain ⟨st, hst, heq⟩ | ⟨heq, hlt⟩ := hattained
      · exact .inl ⟨st, List.mem_cons_of_mem _ hst, heq⟩
      · by_cases hx : x.confidence ≤ c
        · rw [min_eq_right hx] at heq
          exact .inl ⟨x, List.mem_cons_self, by rw [min_eq_right hx, heq]⟩
        · have hx := lt_of_not_ge hx
          rw [min_eq_left hx.le] at heq hlt ⊢
          refine .inr ⟨heq, fun st hst => ?_⟩
          obtain rfl | hst := List.mem_cons.mp hst
          · exact hx
          · exact hlt st hst

section Result

variable {q : EdgeFilter ι} {edges : List (EdgeRow ι)} {u v : ι} {input : GraphCallPathInput ι}
  {arrange : List (EdgeRow ι) → List (EdgeRow ι)}

omit [LinearOrder ι] in
/-- The limit that is in force bounds what the request and the search allow. -/
theorem normalizeMaxHops_within (h : ∀ m, input.maxHops = some m → 1 ≤ m) :
    ∃ limit, normalizeMaxHops input.maxHops = .ok limit ∧
      ∀ n, n ≤ limit ↔ WithinHops input n := by
  have hraw : 1 ≤ input.maxHops.getD maxCallPathHops := by
    cases hm : input.maxHops with
    | none => decide +kernel
    | some m => exact h m hm
  refine ⟨_, if_neg (not_lt.mpr hraw), fun n => ?_⟩
  have hfloor : 0 ≤ (input.maxHops.getD maxCallPathHops).floor := by
    have hone : ((1 : ℤ) : ℚ) ≤ input.maxHops.getD maxCallPathHops := hraw
    have := Rat.le_floor_iff.mpr hone
    omega
  rw [le_min_iff, Int.le_toNat hfloor, Rat.le_floor_iff, Int.cast_natCast]
  refine and_congr_left fun hn => ?_
  cases hm : input.maxHops with
  | none => simpa using hn
  | some m => simp

variable (hperm : ∀ rows, (arrange rows).Perm rows)
include hperm

/-- The search agrees with the shortest paths within its limit. -/
theorem searchPath_agrees (hne : u ≠ v) (limit : Nat) :
    ∃ r, searchPath arrange edges q u v limit = .ok r ∧ Agrees q edges u v (· ≤ limit) r := by
  have hstart : CallPathSearch.Inv q edges u v
      ⟨.start u, .start v, true, none, false⟩ := by
    refine ⟨Half.start_inv u, Half.start_inv v, fun m hm hsteps => ?_⟩
    obtain rfl : m = 0 := Nat.le_zero.mp hm
    exact hne hsteps
  have hrounds := hstart.rounds hperm rfl rfl limit
  unfold searchPath
  dsimp only
  generalize CallPathSearch.rounds arrange edges q limit
    ⟨.start u, .start v, true, none, false⟩ = s at hrounds ⊢
  obtain ⟨hfound, hmissing⟩ := hrounds
  cases hmeet : s.meetingId with
  | none =>
    refine ⟨_, rfl, by simp, by simp, by simp, fun _ hwhole p hp hle => ?_⟩
    exact hmissing hmeet hwhole p.length (by simpa [Half.start] using hle) hp.steps
  | some w =>
    obtain ⟨hforward, hbackward, ⟨rec, hrec, hdepth⟩, ⟨rec', hrec', hdepth'⟩, hdist, hwithin⟩ :=
      hfound w hmeet
    obtain ⟨front, hfront, hlength, hto⟩ := hforward.trace hrec hdepth.le
    obtain ⟨back, hback, hlength', hfrom⟩ := hbackward.trace hrec' hdepth'.le
    dsimp only
    rw [hfront, hback]
    have hpath : IsPath q edges (front.reverse ++ back) u v := IsPath.append hto hfrom
    have htotal : (front.reverse ++ back).length = s.forward.depth + s.backward.depth := by
      rw [List.length_append, List.length_reverse, hlength, hlength', hdepth, hdepth']
    refine ⟨_, rfl, fun _ => ⟨hpath, ?_, rfl⟩, fun _ p hp => ?_, fun _ => ?_, by simp⟩
    · dsimp only
      rw [htotal]
      simpa [Half.start] using hwithin
    · dsimp only
      rw [htotal]
      by_contra hshort
      exact hdist.least p.length (by omega) hp.steps
    · obtain ⟨-, hall, hattained⟩ := isPathConfidence_foldl (front.reverse ++ back) 1
      exact ⟨_, rfl, hall, hattained⟩

/-- For every admissible request between two different nodes the search returns, and agrees with
    a plain search within the hops that are in force. -/
theorem graphCallPath_agrees {g : ι} (hgraph : input.graphId = some g)
    (hfrom : input.fromId = some u) (hto : input.toId = some v) (hne : u ≠ v)
    (hmin : ∀ c, input.confidenceMin = some c → 0 ≤ c ∧ c ≤ 1)
    (hmax : ∀ m, input.maxHops = some m → 1 ≤ m) :
    ∃ r, graphCallPath arrange edges input = .ok r ∧
      Agrees ⟨g, input.confidenceMin.getD (3 / 4), normalizeEdgeTypes input.edgeTypes⟩ edges u v
        (WithinHops input) r := by
  obtain ⟨limit, hlimit, hwithin⟩ := normalizeMaxHops_within hmax
  have hconf : normalizeConfidenceMin input.confidenceMin =
      .ok (input.confidenceMin.getD (3 / 4)) := by
    refine if_neg ?_
    cases hc : input.confidenceMin with
    | none => decide +kernel
    | some c =>
      obtain ⟨hlow, hhigh⟩ := hmin c hc
      exact not_or.mpr ⟨not_lt.mpr hlow, not_lt.mpr hhigh⟩
  obtain ⟨r, hr, hagrees⟩ : ∃ r, searchPath arrange edges _ u v limit = .ok r ∧
      Agrees ⟨g, input.confidenceMin.getD (3 / 4), normalizeEdgeTypes input.edgeTypes⟩ edges u v
        (· ≤ limit) r := searchPath_agrees hperm hne limit
  refine ⟨r, ?_, ?_⟩
  · unfold graphCallPath
    rw [hgraph, hfrom, hto]
    dsimp only
    rw [hconf, hlimit]
    dsimp only
    rw [if_neg hne, hr]
  · rw [funext fun n => propext (hwithin n)] at hagrees
    exact hagrees

end Result

def chainEdge (i : Nat) : EdgeRow ℕ := ⟨i, 0, i, i + 1, "CALLS", .active, 1⟩

/-- `n` edges in a row. -/
def chain (n : Nat) : List (EdgeRow ℕ) := (List.range n).map chainEdge

theorem isPath_chain {q : EdgeFilter ℕ} (hq : ∀ i, q.admits (chainEdge i) = true) {n k : Nat}
    (hk : k ≤ n) : IsPath q (chain n) ((chain k).map EdgeRow.step) 0 k := by
  induction k with
  | zero => rfl
  | succ k ih =>
    have hmem : chainEdge k ∈ chain n := List.mem_map_of_mem (List.mem_range.mpr hk)
    have hlast : chain (k + 1) = chain k ++ [chainEdge k] := by simp [chain, List.range_succ]
    rw [hlast, List.map_append]
    exact (ih (by omega)).append (IsPath.single hmem (hq k))

/-- A chain of three calls, asked for within four hops. -/
theorem graphCallPath_agrees_chain :
    ∃ r, graphCallPath id (chain 3) ⟨some 0, some 0, some 3, some ["CALLS"], some 1, some 4⟩ =
        .ok r ∧
      Agrees ⟨0, 1, some ["CALLS"]⟩ (chain 3) 0 3
        (WithinHops ⟨some 0, some 0, some 3, some ["CALLS"], some 1, some 4⟩) r :=
  graphCallPath_agrees (fun _ => List.Perm.refl _) rfl rfl rfl (by decide)
    (fun c h => by cases h; decide +kernel)
    (fun m h => by cases h; decide +kernel)

/-- A request for more hops than the bound of the search does not get them: a chain of eleven
    edges is not found. -/
theorem graphCallPath_hops_capped :
    ¬∀ (edges : List (EdgeRow ℕ)) (input : GraphCallPathInput ℕ) (g u v : ℕ) (m : ℚ)
      (r : GraphCallPathResult ℕ), input.graphId = some g → input.fromId = some u →
      input.toId = some v → u ≠ v → input.maxHops = some m → graphCallPath id edges input = .ok r →
      Agrees ⟨g, input.confidenceMin.getD (3 / 4), normalizeEdgeTypes input.edgeTypes⟩ edges u v
        (fun n => (n : ℚ) ≤ m) r := by
  intro h
  have hrun : graphCallPath id (chain 11) ⟨some 0, some 0, some 11, none, none, some 11⟩ =
      .ok ⟨false, [], none, 0, 12, false, 3 / 4⟩ := by
    decide +kernel
  have hagrees := h _ _ 0 0 11 11 _ rfl rfl rfl (by decide) rfl hrun
  have hall : ((3 : ℚ) / 4 ≤ 1) := by decide +kernel
  have hpath : IsPath ⟨0, 3 / 4, none⟩ (chain 11) ((chain 11).map EdgeRow.step) 0 11 :=
    isPath_chain (fun i => by simp [EdgeFilter.admits, chainEdge, hall]) (Nat.le_refl 11)
  exact hagrees.missing rfl rfl _ hpath (by decide +kernel)

end WorkflowBoard.Ontology
