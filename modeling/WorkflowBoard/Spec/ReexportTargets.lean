import WorkflowBoard.Native.ReexportChain

/-!
# Where re-export chains lead

The set `visited` has files, not pairs of a file and a name. It bounds the walk, and a walk finds
the definition at the end of a chain that comes to no file twice.
-/

namespace WorkflowBoard.Ontology

/-- Hops lead from the name in the file to the definition. -/
inductive Leads (index : GraphSymbolIndex) : FileNodeInfo → String → DefNodeInfo → Prop where
  | here {file : FileNodeInfo} {name : String} {d : DefNodeInfo} : file.reexport name = none →
      findDefInFileByName index file.path name = some d → Leads index file name d
  | hop {file nextFile : FileNodeInfo} {name : String} {e : ExportFact} {d : DefNodeInfo} :
      file.reexport name = some e → nextFile ∈ hopTargets index file e →
      Leads index nextFile e.localName d → Leads index file name d

/-- The chain of the first targets, as pairs of a path and a name, and the definition at its end. -/
inductive FirstChain (index : GraphSymbolIndex) :
    FileNodeInfo → String → List (String × String) → DefNodeInfo → Prop where
  | here {file : FileNodeInfo} {name : String} {d : DefNodeInfo} : file.reexport name = none →
      findDefInFileByName index file.path name = some d →
      FirstChain index file name [(file.path, name)] d
  | hop {file nextFile : FileNodeInfo} {name : String} {e : ExportFact} {d : DefNodeInfo}
      {pairs : List (String × String)} :
      file.reexport name = some e → (hopTargets index file e).head? = some nextFile →
      FirstChain index nextFile e.localName pairs d →
      FirstChain index file name ((file.path, name) :: pairs) d

variable {index : GraphSymbolIndex} {file : FileNodeInfo} {name : String} {visited : List String}
  {fuel : Nat} {pairs : List (String × String)} {d : DefNodeInfo}
  {follow follow' : FileNodeInfo → List String → Followed} {files : List FileNodeInfo}

/-! ## The walk ends -/

/-- A call with room in the set returns, and leaves it within the limit. -/
def Returns (visited : List String) (r : Followed) : Prop :=
  ∃ found visited', r = some (found, visited') ∧ visited.length ≤ visited'.length ∧
    visited'.length ≤ MAX_REEXPORT_HOPS

theorem followFirst_returns {m : Nat}
    (h : ∀ file visited, m ≤ visited.length → visited.length ≤ MAX_REEXPORT_HOPS →
      Returns visited (follow file visited))
    (hm : m ≤ visited.length) (hle : visited.length ≤ MAX_REEXPORT_HOPS) :
    Returns visited (followFirst follow files visited) := by
  induction files generalizing visited with
  | nil => exact ⟨none, visited, rfl, Nat.le_refl _, hle⟩
  | cons file files ih =>
    obtain ⟨found, visited₁, heq, hgrown, hle₁⟩ := h file visited hm hle
    rw [followFirst, heq]
    cases found with
    | some d => exact ⟨some d, visited₁, rfl, hgrown, hle₁⟩
    | none =>
      obtain ⟨found, visited₂, heq₂, hgrown₂, hle₂⟩ := ih (Nat.le_trans hm hgrown) hle₁
      exact ⟨found, visited₂, heq₂, Nat.le_trans hgrown hgrown₂, hle₂⟩

/-- The walk ends. -/
theorem follow_returns (hfuel : MAX_REEXPORT_HOPS < fuel + visited.length)
    (hle : visited.length ≤ MAX_REEXPORT_HOPS) :
    Returns visited (followReexportChain index fuel file name visited) := by
  induction fuel generalizing file name visited with
  | zero => omega
  | succ fuel ih =>
    rw [followReexportChain]
    split
    · exact ⟨none, visited, rfl, Nat.le_refl _, hle⟩
    · rename_i hroom
      have hlt : visited.length < MAX_REEXPORT_HOPS := by
        rw [not_or] at hroom
        omega
      dsimp only
      split
      · -- each call under this one finds a larger set
        obtain ⟨found, visited', heq, hgrown, hle'⟩ :
            Returns (file.path :: visited) (followFirst _ _ (file.path :: visited)) :=
          followFirst_returns (fun file' visited' hm hle' => ih (by omega) hle')
            (Nat.le_refl (visited.length + 1)) hlt
        exact ⟨found, visited', heq, Nat.le_of_succ_le hgrown, hle'⟩
      · exact ⟨_, _, rfl, Nat.le_succ _, hlt⟩

theorem followFirst_mono {r : Option DefNodeInfo × List String}
    (h : ∀ file visited r, follow file visited = some r → follow' file visited = some r)
    (hr : followFirst follow files visited = some r) :
    followFirst follow' files visited = some r := by
  induction files generalizing visited with
  | nil => exact hr
  | cons file files ih =>
    rw [followFirst] at hr ⊢
    split at hr
    · cases hr
    · rename_i hfound
      rw [h _ _ _ hfound]
      exact hr
    · rename_i hnone
      rw [h _ _ _ hnone]
      exact ih hr

/-- More fuel changes nothing. -/
theorem follow_mono {r : Option DefNodeInfo × List String} {fuel' : Nat} (hle : fuel ≤ fuel')
    (hr : followReexportChain index fuel file name visited = some r) :
    followReexportChain index fuel' file name visited = some r := by
  induction fuel generalizing fuel' file name visited r with
  | zero => cases hr
  | succ fuel ih =>
    obtain ⟨fuel', rfl⟩ : ∃ n, fuel' = n + 1 := ⟨fuel' - 1, by omega⟩
    rw [followReexportChain] at hr ⊢
    split at hr
    · rename_i hstop
      rw [if_pos hstop]
      exact hr
    · rename_i hroom
      rw [if_neg hroom]
      dsimp only at hr ⊢
      split at hr
      · exact followFirst_mono (fun _ _ _ h => ih (by omega) h) hr
      · exact hr

/-! ## What it finds -/

theorem followFirst_sound {visited' : List String} {P : FileNodeInfo → Prop}
    (h : ∀ file visited visited', follow file visited = some (some d, visited') → P file)
    (hr : followFirst follow files visited = some (some d, visited')) : ∃ file ∈ files, P file := by
  induction files generalizing visited with
  | nil => cases hr
  | cons file files ih =>
    rw [followFirst] at hr
    split at hr
    · cases hr
    · rename_i hfound
      cases hr
      exact ⟨file, List.mem_cons_self, h _ _ _ hfound⟩
    · obtain ⟨file', hmem, hP⟩ := ih hr
      exact ⟨file', List.mem_cons_of_mem _ hmem, hP⟩

/-- A definition that is found stands at the end of hops. -/
theorem leads_of_follow {visited' : List String}
    (hr : followReexportChain index fuel file name visited = some (some d, visited')) :
    Leads index file name d := by
  induction fuel generalizing file name visited visited' with
  | zero => cases hr
  | succ fuel ih =>
    rw [followReexportChain] at hr
    split at hr
    · cases hr
    · dsimp only at hr
      split at hr
      · rename_i e he
        obtain ⟨nextFile, hmem, hleads⟩ := followFirst_sound (fun _ _ _ h => ih h) hr
        exact .hop he hmem hleads
      · rename_i hnone
        simp only [Option.some.injEq, Prod.mk.injEq] at hr
        exact .here hnone hr.1

/-- A chain through files that are new, and fit in the set, is followed to its end. -/
theorem follow_of_firstChain (h : FirstChain index file name pairs d)
    (hnew : ∀ p ∈ pairs, p.1 ∉ visited) (hnodup : (pairs.map Prod.fst).Nodup)
    (hroom : pairs.length + visited.length ≤ MAX_REEXPORT_HOPS) (hfuel : pairs.length ≤ fuel) :
    ∃ visited', followReexportChain index fuel file name visited = some (some d, visited') := by
  induction h generalizing visited fuel with
  | @here file name d hnone hdef =>
    obtain ⟨fuel, rfl⟩ : ∃ n, fuel = n + 1 := ⟨fuel - 1, by simp at hfuel; omega⟩
    have hfresh := hnew _ (List.mem_singleton_self _)
    simp only [List.length_singleton] at hroom
    rw [followReexportChain, if_neg (by rw [not_or]; exact ⟨hfresh, by omega⟩), hnone, hdef]
    exact ⟨_, rfl⟩
  | @hop file nextFile name e d pairs he hfirst hchain ih =>
    obtain ⟨fuel, rfl⟩ : ∃ n, fuel = n + 1 := ⟨fuel - 1, by simp at hfuel; omega⟩
    have hfresh := hnew _ List.mem_cons_self
    simp only [List.map_cons, List.nodup_cons, List.length_cons] at hnodup hroom hfuel
    obtain ⟨files, hfiles⟩ := List.head?_eq_some_iff.mp hfirst
    -- the file of this hop does not come again
    have hnew' : ∀ p ∈ pairs, p.1 ∉ file.path :: visited := by
      intro p hp hmem
      obtain heq | hmem := List.mem_cons.mp hmem
      · exact hnodup.1 (heq ▸ List.mem_map_of_mem hp)
      · exact hnew p (List.mem_cons_of_mem _ hp) hmem
    obtain ⟨visited', hfound⟩ : ∃ visited', followReexportChain index fuel nextFile e.localName
        (file.path :: visited) = some (some d, visited') :=
      ih hnew' hnodup.2 (by rw [List.length_cons]; omega) (by omega)
    rw [followReexportChain, if_neg (by rw [not_or]; exact ⟨hfresh, by omega⟩), he]
    dsimp only
    rw [hfiles, followFirst, hfound]
    exact ⟨visited', rfl⟩

/-- A target of a hop is a file of the index. -/
theorem mem_files_of_hopTargets {nextFile : FileNodeInfo} {e : ExportFact}
    (h : nextFile ∈ hopTargets index file e) : nextFile ∈ index.files := by
  obtain ⟨path, -, hpath⟩ := List.mem_filterMap.mp h
  exact List.mem_reverse.mp (List.mem_of_find?_eq_some hpath)

/-- With one target for each hop, a chain that comes to a file twice leads nowhere. -/
theorem follow_eq_none (hone : ∀ f ∈ file :: index.files, ∀ e ∈ f.exports,
      (hopTargets index f e).length ≤ 1) (h : FirstChain index file name pairs d)
    (hagain : (∃ p ∈ pairs, p.1 ∈ visited) ∨ ¬(pairs.map Prod.fst).Nodup) {visited' : List String}
    {found : Option DefNodeInfo}
    (hr : followReexportChain index fuel file name visited = some (found, visited')) :
    found = none := by
  induction h generalizing visited fuel visited' found with
  | @here file name d hnone hdef =>
    cases fuel with
    | zero => cases hr
    | succ fuel =>
      have hmem : file.path ∈ visited := by simpa using hagain
      rw [followReexportChain, if_pos (.inl hmem)] at hr
      cases hr
      rfl
  | @hop file nextFile name e d pairs he hfirst hchain ih =>
    cases fuel with
    | zero => cases hr
    | succ fuel =>
      rw [followReexportChain] at hr
      split at hr
      · cases hr
        rfl
      · rename_i hroom
        obtain ⟨files, hfiles⟩ := List.head?_eq_some_iff.mp hfirst
        have hnil : files = [] := by
          have hlength := hone file List.mem_cons_self e (List.mem_of_find?_eq_some he)
          rw [hfiles, List.length_cons] at hlength
          exact List.length_eq_zero_iff.mp (by omega)
        have hlater : (∃ p ∈ pairs, p.1 ∈ file.path :: visited) ∨
            ¬(pairs.map Prod.fst).Nodup := by
          simp only [List.map_cons, List.nodup_cons, List.mem_map, List.mem_cons] at hagain ⊢
          rw [not_or] at hroom
          grind
        have hone' : ∀ f ∈ nextFile :: index.files, ∀ e ∈ f.exports,
            (hopTargets index f e).length ≤ 1 := by
          intro f hf
          obtain rfl | hf := List.mem_cons.mp hf
          · exact hone f (List.mem_cons_of_mem _
              (mem_files_of_hopTargets (List.mem_of_head? hfirst)))
          · exact hone f (List.mem_cons_of_mem _ hf)
        rw [he] at hr
        dsimp only at hr
        rw [hfiles, hnil, followFirst] at hr
        split at hr
        · cases hr
        · rename_i hfound
          exact nomatch ih hone' hlater hfound
        · cases hr
          rfl

/-! ## Result -/

/-- The walk from a name in a file returns. It returns only definitions that hops lead to, and the
    one at the end of a chain of first targets of at most 8 pairs, if no file comes twice on it;
    with one target for each hop from the file and from those of the index, only then. -/
theorem followReexportChain_exact (index : GraphSymbolIndex) (file : FileNodeInfo)
    (name : String) : ∃ found visited,
    (∀ fuel, MAX_REEXPORT_HOPS < fuel →
      followReexportChain index fuel file name [] = some (found, visited)) ∧
    (∀ d, found = some d → Leads index file name d) ∧
    ∀ pairs d, FirstChain index file name pairs d → pairs.Nodup →
      pairs.length ≤ MAX_REEXPORT_HOPS →
      ((pairs.map Prod.fst).Nodup → found = some d) ∧
      ((∀ f ∈ file :: index.files, ∀ e ∈ f.exports, (hopTargets index f e).length ≤ 1) →
        (found = some d ↔ (pairs.map Prod.fst).Nodup)) := by
  obtain ⟨found, visited, hr, -, -⟩ : Returns []
      (followReexportChain index (MAX_REEXPORT_HOPS + 1) file name []) :=
    follow_returns (by simp) (by simp)
  refine ⟨found, visited, fun fuel hfuel => follow_mono hfuel hr, ?_, ?_⟩
  · rintro d rfl
    exact leads_of_follow hr
  · intro pairs d hchain hpairs hle
    have hfound : (pairs.map Prod.fst).Nodup → found = some d := by
      intro hnodup
      obtain ⟨visited', hr'⟩ : ∃ visited', followReexportChain index (MAX_REEXPORT_HOPS + 1) file
          name [] = some (some d, visited') :=
        follow_of_firstChain hchain (by simp) hnodup (by simpa using hle) (by omega)
      rw [hr] at hr'
      cases hr'
      rfl
    refine ⟨hfound, fun hone => ⟨fun hsome => ?_, hfound⟩⟩
    by_contra hagain
    cases hsome.symm.trans (follow_eq_none hone hchain (.inr hagain) hr)

def barrelFile : FileNodeInfo := ⟨"src/a.ts", [⟨"Foo", "Foo", some "./b"⟩]⟩

def renamingFile : FileNodeInfo := ⟨"src/b.ts", [⟨"FooImpl", "Foo", some "./a"⟩]⟩

/-- A barrel, and a file that gives a definition of the barrel another name. -/
def barrels : GraphSymbolIndex where
  files := [barrelFile, renamingFile]
  defs := [⟨"1", "1", "FooImpl", "FooImpl", "src/a.ts"⟩]

/-- The definition behind `Foo` is in the file where the walk began. -/
theorem not_always_followed :
    ¬∀ (index : GraphSymbolIndex) (file : FileNodeInfo) (name : String)
      (pairs : List (String × String)) (d : DefNodeInfo), FirstChain index file name pairs d →
      pairs.Nodup → pairs.length ≤ MAX_REEXPORT_HOPS → ∃ visited, followReexportChain index
        (MAX_REEXPORT_HOPS + 1) file name [] = some (some d, visited) := by
  intro h
  have hchain : FirstChain barrels barrelFile "Foo"
      [("src/a.ts", "Foo"), ("src/b.ts", "Foo"), ("src/a.ts", "FooImpl")]
      ⟨"1", "1", "FooImpl", "FooImpl", "src/a.ts"⟩ := by
    have hthere : (hopTargets barrels barrelFile ⟨"Foo", "Foo", some "./b"⟩).head? =
        some renamingFile := by decide +kernel
    have hback : (hopTargets barrels renamingFile ⟨"FooImpl", "Foo", some "./a"⟩).head? =
        some barrelFile := by decide +kernel
    exact .hop rfl hthere (.hop rfl hback (.here rfl (by decide +kernel)))
  obtain ⟨visited, hr⟩ := h _ _ _ _ _ hchain (by decide) (by decide)
  have hnone : (followReexportChain barrels 9 barrelFile "Foo" []).map (·.1) = some none := by
    decide +kernel
  have hsome := congrArg (Option.map (·.1)) hr
  cases hnone.symm.trans hsome

end WorkflowBoard.Ontology
