import WorkflowBoard.Native.OntologySymbols

/-!
# Nested definitions

Any two ranges of the definitions of a file are nested or disjoint. While the loop of `extractFile`
goes over them in order, its stack has just those that are still open, the innermost on top.
-/

namespace WorkflowBoard.Ontology

/-- The range of `b` lies in the range of `a`. -/
def DefFact.Encloses (a b : DefFact) : Prop :=
  a.startByte ≤ b.startByte ∧ b.startByte < a.endByte ∧ b.endByte ≤ a.endByte

/-- Nested or disjoint. -/
def RawDef.Laminar (a b : RawDef) : Prop :=
  a.endByte ≤ b.startByte ∨ b.endByte ≤ a.startByte ∨
    a.startByte ≤ b.startByte ∧ b.endByte ≤ a.endByte ∨
    b.startByte ≤ a.startByte ∧ a.endByte ≤ b.endByte

/-- The parent of `d` is the smallest definition around it: each other one around it is also around
    the parent. Of definitions with one range the earlier is around the later. -/
structure DefFact.Nested (before : List DefFact) (d : DefFact) (behind : List DefFact) : Prop where
  parent : (d.parentQualifiedName = none ∧ ∀ a ∈ before, ¬ a.Encloses d) ∨
    ∃ outer p inner, before = outer ++ p :: inner ∧ p.Encloses d ∧
      d.parentQualifiedName = some p.qualifiedName ∧
      (∀ a ∈ outer, a.Encloses d → a.Encloses p) ∧ ∀ a ∈ inner, ¬ a.Encloses d
  behind : ∀ a ∈ behind, a.Encloses d → a.startByte = d.startByte ∧ a.endByte = d.endByte

/-! ## The stack -/

/-- `a` comes before `raw` in order, and their ranges are nested or disjoint. -/
def DefFact.Before (a : DefFact) (raw : RawDef) : Prop :=
  (a.startByte < raw.startByte ∨ a.startByte = raw.startByte ∧ raw.endByte ≤ a.endByte) ∧
    (a.endByte ≤ raw.startByte ∨ raw.endByte ≤ a.endByte)

/-- The definitions on the stack, the innermost first, among those that are done: between them
    stand only such that end by `now`. -/
def StackInv (now : Nat) : List DefFact → List DefFact → Prop
  | done, [] => ∀ a ∈ done, a.endByte ≤ now
  | done, p :: rest => ∃ outer inner, done = outer ++ p :: inner ∧ (∀ a ∈ inner, a.endByte ≤ now) ∧
      (∀ q ∈ rest, q.startByte ≤ p.startByte ∧ p.endByte ≤ q.endByte) ∧ StackInv now outer rest

def DefFact.toOpen (d : DefFact) : OpenDef := ⟨d.endByte, d.qualifiedName⟩

variable {now next : Nat} {done stack : List DefFact} {raw : RawDef} {raws : List RawDef}

section

variable (h : StackInv now done stack)
include h

theorem StackInv.mono (hle : now ≤ next) : StackInv next done stack := by
  induction stack generalizing done with
  | nil => exact fun a ha => (h a ha).trans hle
  | cons p rest ih =>
    obtain ⟨outer, inner, hdone, hinner, hnested, hrest⟩ := h
    exact ⟨outer, inner, hdone, fun a ha => (hinner a ha).trans hle, hnested, ih hrest⟩

theorem StackInv.mem_or {a : DefFact} (ha : a ∈ done) :
    a ∈ stack ∨ a.endByte ≤ now := by
  induction stack generalizing done with
  | nil => exact .inr (h a ha)
  | cons p rest ih =>
    obtain ⟨outer, inner, rfl, hinner, -, hrest⟩ := h
    simp only [List.mem_append, List.mem_cons] at ha ⊢
    obtain ha | ha | ha := ha
    · exact (ih hrest ha).imp_left .inr
    · exact .inl (.inl ha)
    · exact .inr (hinner a ha)

theorem StackInv.append {ends : List DefFact}
    (hends : ∀ a ∈ ends, a.endByte ≤ now) : StackInv now (done ++ ends) stack := by
  cases stack with
  | nil =>
    intro a ha
    exact (List.mem_append.mp ha).elim (h a) (hends a)
  | cons p rest =>
    obtain ⟨outer, inner, rfl, hinner, hrest⟩ := h
    refine ⟨outer, inner ++ ends, by simp, ?_, hrest⟩
    intro a ha
    exact (List.mem_append.mp ha).elim (hinner a) (hends a)

theorem StackInv.pop :
    StackInv now done (stack.dropWhile fun p => p.endByte ≤ now) := by
  induction stack generalizing done with
  | nil => exact h
  | cons p rest ih =>
    rw [List.dropWhile_cons]
    split
    · rename_i hp
      obtain ⟨outer, inner, rfl, hinner, -, hrest⟩ := h
      apply (ih hrest).append
      intro a ha
      obtain rfl | ha := List.mem_cons.mp ha
      · simpa using hp
      · exact hinner a ha
    · exact h

theorem StackInv.subset : ∀ a ∈ stack, a ∈ done := by
  induction stack generalizing done with
  | nil => simp
  | cons p rest ih =>
    obtain ⟨outer, inner, rfl, -, -, hrest⟩ := h
    intro a ha
    obtain rfl | ha := List.mem_cons.mp ha
    · simp
    · exact List.mem_append_left _ (ih hrest a ha)

/-- A definition that starts while the top is open lies in it, and in all below. -/
theorem StackInv.encloses {d : DefFact}
    (htop : ∀ p ∈ stack.head?, now < p.endByte) (hnow : d.startByte = now)
    (hbefore : ∀ a ∈ done, a.startByte ≤ now ∧ (a.endByte ≤ now ∨ d.endByte ≤ a.endByte)) :
    ∀ p ∈ stack, p.Encloses d := by
  intro p hp
  have hopen : now < p.endByte := by
    cases stack with
    | nil => cases hp
    | cons q rest =>
      have hq := htop q rfl
      obtain ⟨-, -, -, -, hnested, -⟩ := h
      obtain rfl | hp := List.mem_cons.mp hp
      · exact hq
      · have hpq := hnested p hp
        omega
  have hrange := hbefore p (h.subset p hp)
  unfold DefFact.Encloses
  omega

end

/-! ## The loop -/

/-- What a turn gives below the definition `parent`. -/
def RawDef.fact (raw : RawDef) (parent : Option DefFact) : DefFact where
  qualifiedName := match parent with
    | some p => p.qualifiedName ++ "." ++ raw.name
    | none => raw.name
  name := raw.name
  startByte := raw.startByte
  endByte := raw.endByte
  parentQualifiedName := parent.map (·.qualifiedName)

theorem nestDef_map (stack : List DefFact) (raw : RawDef) :
    nestDef (stack.map DefFact.toOpen) raw =
      let inner := stack.dropWhile fun p => p.endByte ≤ raw.startByte
      ((raw.fact inner.head? :: inner).map DefFact.toOpen, raw.fact inner.head?) := by
  have hopened : (stack.map DefFact.toOpen).dropWhile (fun top => top.endByte ≤ raw.startByte) =
      (stack.dropWhile fun p => p.endByte ≤ raw.startByte).map DefFact.toOpen := by
    rw [List.dropWhile_map]
    rfl
  simp only [nestDef, hopened]
  cases stack.dropWhile fun p => p.endByte ≤ raw.startByte <;> rfl

/-- A turn of the loop keeps the stack. -/
theorem StackInv.nest (h : StackInv now done stack) (hnow : now ≤ raw.startByte)
    (hbefore : ∀ a ∈ done, a.Before raw) :
    let inner := stack.dropWhile fun p => p.endByte ≤ raw.startByte
    let fact := raw.fact inner.head?
    StackInv raw.startByte (done ++ [fact]) (fact :: inner) ∧
      ∀ behind, (∀ a ∈ behind, a.Encloses fact →
        a.startByte = fact.startByte ∧ a.endByte = fact.endByte) → fact.Nested done behind := by
  have hpop := (h.mono hnow).pop
  have htop : ∀ p ∈ (stack.dropWhile fun p => p.endByte ≤ raw.startByte).head?,
      raw.startByte < p.endByte := by
    intro p hp
    have hnot := List.head?_dropWhile_not (fun p : DefFact =>
      decide (p.endByte ≤ raw.startByte)) stack
    rw [Option.mem_def] at hp
    rw [hp] at hnot
    simpa using hnot
  have hstart : ∀ a ∈ done, a.startByte ≤ raw.startByte ∧
      (a.endByte ≤ raw.startByte ∨ raw.endByte ≤ a.endByte) := by
    intro a ha
    have := hbefore a ha
    unfold DefFact.Before at this
    omega
  intro inner fact
  have henc : ∀ p ∈ inner, p.Encloses fact := hpop.encloses htop rfl hstart
  constructor
  · refine ⟨done, [], rfl, by simp, ?_, hpop⟩
    intro q hq
    exact ⟨(henc q hq).1, (henc q hq).2.2⟩
  · intro behind hbehind
    refine ⟨?_, hbehind⟩
    change StackInv _ _ inner at hpop
    change ∀ p ∈ inner.head?, _ at htop
    have hfact : fact = raw.fact inner.head? := rfl
    cases hinner : inner with
    | nil =>
      rw [hinner] at hpop hfact
      left
      refine ⟨by simp [hfact, RawDef.fact], ?_⟩
      intro a ha hafact
      have : a.endByte ≤ raw.startByte := hpop a ha
      have : raw.startByte < a.endByte := hafact.2.1
      omega
    | cons p rest =>
      rw [hinner] at hpop htop henc hfact
      obtain ⟨outer, ends, hdone, hends, hnested, hrest⟩ := hpop
      right
      refine ⟨outer, p, ends, hdone, henc p (by simp), by simp [hfact, RawDef.fact], ?_, ?_⟩
      · intro a ha hafact
        have hopen : raw.startByte < a.endByte := hafact.2.1
        have hp := htop p rfl
        have hps := hstart p (by simp [hdone])
        obtain hmem | hend := hrest.mem_or ha
        · have := hnested a hmem
          unfold DefFact.Encloses
          omega
        · omega
      · intro a ha hafact
        have := hends a ha
        have : raw.startByte < a.endByte := hafact.2.1
        omega

theorem RawDef.NotAfter.before {a b : RawDef} (h : a.NotAfter b) (hlam : a.Laminar b)
    (parent : Option DefFact) : (a.fact parent).Before b := by
  have := a.le
  have := b.le
  unfold RawDef.NotAfter at h
  unfold RawDef.Laminar at hlam
  simp only [DefFact.Before, RawDef.fact]
  omega

theorem nestDefs_ranges (stack : List OpenDef) (raws : List RawDef) :
    (nestDefs stack raws).map (fun d => (d.name, d.startByte, d.endByte)) =
      raws.map fun raw => (raw.name, raw.startByte, raw.endByte) := by
  induction raws generalizing stack with
  | nil => rfl
  | cons raw raws ih =>
    simp only [nestDefs, List.map_cons, ih]
    rfl

/-- A definition around an earlier one has its range. -/
theorem nestDefs_behind (stack : List OpenDef) {raw : RawDef} {raws : List RawDef}
    (hsorted : ∀ b ∈ raws, raw.NotAfter b) (parent : Option DefFact) :
    ∀ a ∈ nestDefs stack raws, a.Encloses (raw.fact parent) →
      a.startByte = (raw.fact parent).startByte ∧ a.endByte = (raw.fact parent).endByte := by
  intro a ha henc
  have hmem := List.mem_map_of_mem (f := fun d : DefFact => (d.name, d.startByte, d.endByte)) ha
  rw [nestDefs_ranges] at hmem
  obtain ⟨b, hb, heq⟩ := List.mem_map.mp hmem
  simp only [Prod.mk.injEq] at heq
  have hafter := hsorted b hb
  unfold RawDef.NotAfter at hafter
  simp only [DefFact.Encloses, RawDef.fact] at henc ⊢
  omega

/-- The whole loop, on the definitions that are left. -/
theorem StackInv.nestDefs (h : StackInv now done stack) (hnow : ∀ raw ∈ raws, now ≤ raw.startByte)
    (hbefore : ∀ a ∈ done, ∀ raw ∈ raws, a.Before raw) (hsorted : raws.Pairwise RawDef.NotAfter)
    (hlam : raws.Pairwise RawDef.Laminar) {pre post : List DefFact} {d : DefFact}
    (hd : nestDefs (stack.map DefFact.toOpen) raws = pre ++ d :: post) :
    d.Nested (done ++ pre) post := by
  induction raws generalizing now done stack pre with
  | nil => simp [Ontology.nestDefs] at hd
  | cons raw raws ih =>
    rw [List.pairwise_cons] at hsorted hlam
    simp only [Ontology.nestDefs, nestDef_map] at hd
    obtain ⟨hstack, hnested⟩ := h.nest (hnow raw (by simp)) fun a ha => hbefore a ha raw (by simp)
    cases pre with
    | nil =>
      obtain ⟨rfl, rfl⟩ := List.cons.inj hd
      rw [List.append_nil]
      exact hnested _ (nestDefs_behind _ hsorted.1 _)
    | cons first pre =>
      obtain ⟨rfl, hrest⟩ := List.cons.inj hd
      rw [List.append_cons]
      refine ih hstack ?_ ?_ hsorted.2 hlam.2 hrest
      · intro b hb
        have hafter := hsorted.1 b hb
        unfold RawDef.NotAfter at hafter
        omega
      · intro a ha b hb
        obtain ha | ha := List.mem_append.mp ha
        · exact hbefore a ha b (by simp [hb])
        · rw [List.mem_singleton] at ha
          subst ha
          exact (hsorted.1 b hb).before (hlam.1 b hb) _

/-! ## The edges -/

theorem declareDefs_isSome (nodeId : String → String) (fileNodeId : String)
    (done : List DefFact) {known : InsertMap String String} {defs : List DefFact}
    (hknown : ∀ a ∈ done, (known.get a.qualifiedName).isSome)
    (hparent : ∀ pre d post, defs = pre ++ d :: post → ∀ q ∈ d.parentQualifiedName,
      ∃ p ∈ done ++ pre, p.qualifiedName = q) :
    ∀ edge ∈ declareDefs nodeId fileNodeId known defs, edge.1.isSome := by
  induction defs generalizing known done with
  | nil => simp [declareDefs]
  | cons d defs ih =>
    have hset : ∀ q, (known.get q).isSome →
        ((known.set d.qualifiedName (nodeId d.qualifiedName)).get q).isSome := by
      intro q hq
      by_cases heq : q = d.qualifiedName
      · rw [heq, InsertMap.get_set_self]
        rfl
      · rwa [InsertMap.get_set_other heq]
    intro edge hedge
    obtain rfl | hedge := List.mem_cons.mp hedge
    · cases hp : d.parentQualifiedName with
      | none => simp
      | some q =>
        obtain ⟨p, hmem, rfl⟩ := hparent [] d defs rfl q hp
        rw [List.append_nil] at hmem
        have := hset _ (hknown p hmem)
        by_cases hempty : p.qualifiedName = "" <;> simp_all
    · refine ih (done ++ [d]) ?_ ?_ edge hedge
      · intro a ha
        obtain ha | ha := List.mem_append.mp ha
        · exact hset _ (hknown a ha)
        · rw [List.mem_singleton.mp ha, InsertMap.get_set_self]
          rfl
      · intro pre d' post hdefs q hq
        obtain ⟨p, hmem, hname⟩ := hparent (d :: pre) d' post (by rw [hdefs]; rfl) q hq
        exact ⟨p, by simpa using hmem, hname⟩

instance : Std.Total RawDef.NotAfter where
  total a b := by
    unfold RawDef.NotAfter
    omega

instance : IsTrans RawDef RawDef.NotAfter where
  trans a b c := by
    unfold RawDef.NotAfter
    omega

/-- Where the ranges are nested or disjoint, each definition that was captured is there once, its
    parent is the smallest around it and comes before it, and each edge has its source. -/
theorem defs_nested (rawDefs : List RawDef) (hlam : ∀ a ∈ rawDefs, ∀ b ∈ rawDefs, a.Laminar b)
    (nodeId : String → String) (fileNodeId : String) :
    ((extractDefs rawDefs).map fun d => (d.name, d.startByte, d.endByte)).Perm
        (rawDefs.map fun raw => (raw.name, raw.startByte, raw.endByte)) ∧
      (∀ pre d post, extractDefs rawDefs = pre ++ d :: post → d.Nested pre post ∧
        ∀ q ∈ d.parentQualifiedName, ∃ p ∈ pre, p.qualifiedName = q) ∧
      ∀ edge ∈ declareDefs nodeId fileNodeId {} (extractDefs rawDefs), edge.1.isSome := by
  have hperm := rawDefs.perm_insertionSort RawDef.NotAfter
  have hnested : ∀ pre d post, extractDefs rawDefs = pre ++ d :: post → d.Nested pre post := by
    intro pre d post hd
    have hstart : StackInv 0 [] [] := by simp [StackInv]
    refine hstart.nestDefs ?_ ?_ (List.pairwise_insertionSort _ rawDefs) ?_ hd
    · simp
    · simp
    · apply List.pairwise_of_forall_mem_list
      intro a ha b hb
      exact hlam a (hperm.mem_iff.mp ha) b (hperm.mem_iff.mp hb)
  have hparent : ∀ pre d post, extractDefs rawDefs = pre ++ d :: post →
      ∀ q ∈ d.parentQualifiedName, ∃ p ∈ pre, p.qualifiedName = q := by
    intro pre d post hd q hq
    obtain ⟨hnone, -⟩ | ⟨outer, p, inner, rfl, -, hp, -⟩ := (hnested pre d post hd).parent
    · rw [hnone] at hq
      cases hq
    · rw [hp] at hq
      exact ⟨p, by simp, Option.some.inj hq⟩
  refine ⟨?_, fun pre d post hd => ⟨hnested pre d post hd, hparent pre d post hd⟩, ?_⟩
  · rw [extractDefs, nestDefs_ranges]
    exact hperm.map _
  · exact declareDefs_isSome nodeId fileNodeId [] (by simp) hparent

/-- A class with two methods, one of which has a function of its own, and a function after it. -/
theorem defs_nested_methods :
    let rawDefs : List RawDef := [⟨"run", 12, 30, by decide⟩, ⟨"Job", 0, 40, by decide⟩,
      ⟨"step", 20, 28, by decide⟩, ⟨"stop", 30, 40, by decide⟩, ⟨"main", 40, 55, by decide⟩]
    (extractDefs rawDefs).map (·.parentQualifiedName) =
        [none, some "Job", some "Job.run", some "Job", none] ∧
      ∀ edge ∈ declareDefs id "file" {} (extractDefs rawDefs), edge.1.isSome := by
  refine ⟨by decide, (defs_nested _ ?_ id "file").2.2⟩
  simp [RawDef.Laminar]

end WorkflowBoard.Ontology
