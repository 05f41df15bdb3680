import WorkflowBoard.ForStd.Except
import WorkflowBoard.Native.GraphLifecycle

/-!
# Only the build that holds a graph replaces it

Every statement that ends a build names the row by its `build_id`, and no two builds have the same
one. So the stored rows are always those of the last build that was committed. A claim or a release
looks for live builds of its server first and runs later; it takes a row from a live build exactly
if that build began in between and its lease has run out by then.
-/

namespace WorkflowBoard.Ontology

variable {χ ν : Type}

/-! ## Statements -/

section Statements

variable {p : OntologyGraph → Bool} {f : OntologyGraph → OntologyGraph} {g : OntologyGraph}
  {graphs : List OntologyGraph}

theorem mem_updateGraphs :
    g ∈ (updateGraphs p f graphs).2 ↔ ∃ g₀ ∈ graphs, (if p g₀ then f g₀ else g₀) = g :=
  List.mem_map

/-- An update has won if it has found a row. -/
theorem updateGraphs_won : (updateGraphs p f graphs).1 = true ↔ ∃ g ∈ graphs, p g = true := by
  simp [updateGraphs]

theorem updateGraphs_of_none (h : ∀ g ∈ graphs, p g = false) :
    updateGraphs p f graphs = (false, graphs) := by
  have hany : graphs.any p = false := by
    rw [List.any_eq_false]
    intro g hg
    simp [h g hg]
  have hmap : graphs.map (fun g => if p g then f g else g) = graphs := by
    rw [List.map_congr_left (g := id) (fun g hg => by simp [h g hg]), List.map_id]
  rw [updateGraphs, hany, hmap]

theorem updateGraphs_view {β : Type} {view : OntologyGraph → β} (h : ∀ g, view (f g) = view g) :
    (updateGraphs p f graphs).2.map view = graphs.map view := by
  rw [updateGraphs, List.map_map]
  refine List.map_congr_left fun g _ => ?_
  by_cases hp : p g = true
  · simp [hp, h]
  · simp [hp]

end Statements

/-! ## Rows -/

section Rows

variable {pipeline : GraphPipeline χ ν} {graphId id : String} {x : RepoExtraction χ}
  {rows : List (StoredRow ν)}

theorem rowsOf_clear : rowsOf graphId (clearExistingGraphRows graphId rows) = [] := by
  simp [rowsOf, clearExistingGraphRows]

theorem rowsOf_clear_other (hne : id ≠ graphId) :
    rowsOf id (clearExistingGraphRows graphId rows) = rowsOf id rows := by
  unfold rowsOf clearExistingGraphRows
  rw [List.filter_filter]
  congr 1
  refine List.filter_congr fun r _ => ?_
  by_cases hr : r.graph_id = id
  · simp [hr, hne]
  · simp [hr]

theorem rowsOf_insert (new : List ν) :
    rowsOf graphId (insertRows graphId new rows) = rowsOf graphId rows ++ new := by
  simp [rowsOf, insertRows, List.filter_map, Function.comp_def]

theorem rowsOf_insert_other (new : List ν) (hne : id ≠ graphId) :
    rowsOf id (insertRows graphId new rows) = rowsOf id rows := by
  simp [rowsOf, insertRows, List.filter_map, Function.comp_def, hne.symm]

/-- The rows of a graph that come from an extraction alone. -/
def builtRows (pipeline : GraphPipeline χ ν) (graphId : String) (x : RepoExtraction χ) : List ν :=
  (pipeline.resolve graphId x (pipeline.persist graphId x).rows).rows

/-- A replace leaves nothing of the rows of the graph before it. -/
theorem rowsOf_replaceRows :
    rowsOf graphId (replaceRows pipeline graphId x rows).2 = builtRows pipeline graphId x := by
  unfold replaceRows
  rw [rowsOf_insert, rowsOf_clear, rowsOf_insert, rowsOf_clear]
  rfl

/-- A replace leaves the rows of the other graphs. -/
theorem rowsOf_replaceRows_other (hne : id ≠ graphId) :
    rowsOf id (replaceRows pipeline graphId x rows).2 = rowsOf id rows := by
  unfold replaceRows
  rw [rowsOf_insert_other _ hne, rowsOf_clear_other hne, rowsOf_insert_other _ hne,
    rowsOf_clear_other hne]

end Rows

/-! ## What is stored -/

namespace GraphCluster

/-- The build of a graph that was committed last. -/
def lastReady (s : GraphCluster χ ν) (id : String) : Option (ReadyBuild χ) :=
  (s.ready.filter (·.graphId = id)).getLast?

/-- The rows of a graph are entirely those of the build that was committed last, and the graph's
    row has its commit. -/
def StoredLast (pipeline : GraphPipeline χ ν) (s : GraphCluster χ ν) (id : String) : Prop :=
  match s.lastReady id with
  | none => rowsOf id s.rows = [] ∧ ∀ g ∈ s.graphs, g.id = id → g.commit = ""
  | some r => rowsOf id s.rows = builtRows pipeline id r.extraction ∧
      ∀ g ∈ s.graphs, g.id = id → g.commit = r.extraction.commit

structure StoreInv (pipeline : GraphPipeline χ ν) (s : GraphCluster χ ν) : Prop where
  ids : (s.graphs.map (·.id)).Nodup
  owner : ∀ g ∈ s.graphs, g.status = .building ∨ g.build_id = ""
  ready : ∀ r ∈ s.ready, ∃ g ∈ s.graphs, g.id = r.graphId
  stored : ∀ id, s.StoredLast pipeline id

/-- Nothing is replaced; the rows of the graphs may have another owner. -/
structure SameStore (s s' : GraphCluster χ ν) : Prop where
  rows : s'.rows = s.rows
  ready : s'.ready = s.ready
  commits : s'.graphs.map (fun g => (g.id, g.commit)) = s.graphs.map fun g => (g.id, g.commit)
  owner : (∀ g ∈ s.graphs, g.status = .building ∨ g.build_id = "") →
    ∀ g ∈ s'.graphs, g.status = .building ∨ g.build_id = ""

variable {opts : LifecycleOptions} {pipeline : GraphPipeline χ ν} {s s' : GraphCluster χ ν}
  {a : LifecycleStep χ} {id : String}

/-- The rows and the commits, told by the build that was committed last. -/
theorem storedLast_iff : s.StoredLast pipeline id ↔
    rowsOf id s.rows =
        (s.lastReady id).elim [] (fun r => builtRows pipeline id r.extraction) ∧
      ∀ g ∈ s.graphs, g.id = id → g.commit = (s.lastReady id).elim "" (·.extraction.commit) := by
  unfold StoredLast
  cases s.lastReady id <;> exact Iff.rfl

theorem SameStore.of_eq (hrows : s'.rows = s.rows) (hready : s'.ready = s.ready)
    (hgraphs : s'.graphs = s.graphs) : SameStore s s' where
  rows := hrows
  ready := hready
  commits := by rw [hgraphs]
  owner h := by rwa [hgraphs]

theorem SameStore.of_update {p : OntologyGraph → Bool} {f : OntologyGraph → OntologyGraph}
    (hrows : s'.rows = s.rows) (hready : s'.ready = s.ready)
    (hgraphs : s'.graphs = (updateGraphs p f s.graphs).2)
    (hkeeps : ∀ g, (f g).id = g.id ∧ (f g).commit = g.commit)
    (howner : ∀ g, p g = true → (g.status = .building ∨ g.build_id = "") →
      (f g).status = .building ∨ (f g).build_id = "") : SameStore s s' where
  rows := hrows
  ready := hready
  commits := by
    rw [hgraphs]
    exact updateGraphs_view fun g => Prod.ext (hkeeps g).1 (hkeeps g).2
  owner h g hg := by
    rw [hgraphs, mem_updateGraphs] at hg
    obtain ⟨g₀, hg₀, rfl⟩ := hg
    split
    · rename_i hp
      exact howner g₀ hp (h g₀ hg₀)
    · exact h g₀ hg₀

theorem StoreInv.same (h : s.StoreInv pipeline) (hsame : SameStore s s') :
    s'.StoreInv pipeline := by
  have hids : s'.graphs.map (·.id) = s.graphs.map (·.id) := by
    have hfst := congrArg (List.map Prod.fst) hsame.commits
    rwa [List.map_map, List.map_map] at hfst
  have hcommit : ∀ g' ∈ s'.graphs, ∃ g ∈ s.graphs, g.id = g'.id ∧ g.commit = g'.commit := by
    intro g' hg'
    have hmem : (g'.id, g'.commit) ∈ s.graphs.map fun g => (g.id, g.commit) := by
      rw [← hsame.commits]
      exact List.mem_map_of_mem hg'
    obtain ⟨g, hg, heq⟩ := List.mem_map.mp hmem
    exact ⟨g, hg, congrArg Prod.fst heq, congrArg Prod.snd heq⟩
  refine ⟨hids ▸ h.ids, hsame.owner h.owner, fun r hr => ?_, fun id => ?_⟩
  · rw [hsame.ready] at hr
    obtain ⟨g, hg, hid⟩ := h.ready r hr
    have hmem : r.graphId ∈ s'.graphs.map (·.id) := hids ▸ hid ▸ List.mem_map_of_mem hg
    exact List.mem_map.mp hmem
  · have hstored := h.stored id
    rw [storedLast_iff, lastReady] at hstored ⊢
    rw [hsame.ready, hsame.rows]
    refine ⟨hstored.1, fun g' hg' hid => ?_⟩
    obtain ⟨g, hg, hid', hc⟩ := hcommit g' hg'
    rw [← hc]
    exact hstored.2 g hg (hid'.trans hid)

theorem StoreInv.insert (h : s.StoreInv pipeline) {g : OntologyGraph}
    (hgraphs : s'.graphs = s.graphs ++ [g]) (hnew : ∀ h ∈ s.graphs, h.id ≠ g.id)
    (hbuilding : g.status = .building) (hcommit : g.commit = "") (hrows : s'.rows = s.rows)
    (hready : s'.ready = s.ready) : s'.StoreInv pipeline := by
  have hnone : s.lastReady g.id = none := by
    have hfilter : s.ready.filter (·.graphId = g.id) = [] := by
      rw [List.filter_eq_nil_iff]
      intro r hr hid
      obtain ⟨g', hg', hid'⟩ := h.ready r hr
      exact hnew g' hg' (hid'.trans (by simpa using hid))
    rw [lastReady, hfilter]
    rfl
  constructor
  · rw [hgraphs, List.map_append, List.nodup_append]
    refine ⟨h.ids, by simp, fun x hx y hy => ?_⟩
    obtain ⟨g', hg', rfl⟩ := List.mem_map.mp hx
    rw [List.map_singleton, List.mem_singleton] at hy
    exact hy ▸ hnew g' hg'
  · intro g' hg'
    rw [hgraphs] at hg'
    obtain hg' | hg' := List.mem_append.mp hg'
    · exact h.owner g' hg'
    · exact .inl (List.mem_singleton.mp hg' ▸ hbuilding)
  · intro r hr
    rw [hready] at hr
    obtain ⟨g', hg', hid⟩ := h.ready r hr
    exact ⟨g', hgraphs ▸ List.mem_append_left _ hg', hid⟩
  · intro id
    have hstored := h.stored id
    have hlast : s'.lastReady id = s.lastReady id := by rw [lastReady, hready, lastReady]
    rw [storedLast_iff] at hstored ⊢
    rw [hlast, hrows, hgraphs]
    refine ⟨hstored.1, fun g' hg' hid => ?_⟩
    obtain hg' | hg' := List.mem_append.mp hg'
    · exact hstored.2 g' hg' hid
    · rw [← hid, List.mem_singleton.mp hg', hnone]
      exact hcommit

/-- A committed build is the last one of its graph. -/
theorem StoreInv.replace (h : s.StoreInv pipeline) {graphId buildId : String}
    {x : RepoExtraction χ} {now : Date} {progress : BuildProgress}
    (hheld : ∃ g ∈ s.graphs, g.heldBy graphId buildId = true)
    (hgraphs : s'.graphs = (finishGraph now graphId buildId x.commit progress s.graphs).2)
    (hrows : s'.rows = (replaceRows pipeline graphId x s.rows).2)
    (hready : s'.ready = s.ready ++ [⟨graphId, buildId, x⟩]) : s'.StoreInv pipeline := by
  have hids : s'.graphs.map (·.id) = s.graphs.map (·.id) :=
    hgraphs ▸ updateGraphs_view fun g => rfl
  obtain ⟨g₀, hg₀, hheld⟩ := hheld
  have hid₀ : g₀.id = graphId := by
    simp only [OntologyGraph.heldBy, Bool.and_eq_true, decide_eq_true_eq] at hheld
    exact hheld.1
  constructor
  · exact hids ▸ h.ids
  · intro g hg
    rw [hgraphs, finishGraph, mem_updateGraphs] at hg
    obtain ⟨g₁, hg₁, rfl⟩ := hg
    split
    · exact .inr rfl
    · exact h.owner g₁ hg₁
  · intro r hr
    have hmem : r.graphId ∈ s'.graphs.map (·.id) := by
      rw [hids]
      rw [hready] at hr
      obtain hr | hr := List.mem_append.mp hr
      · obtain ⟨g, hg, hid⟩ := h.ready r hr
        exact hid ▸ List.mem_map_of_mem hg
      · rw [List.mem_singleton.mp hr, ← hid₀]
        exact List.mem_map_of_mem hg₀
    exact List.mem_map.mp hmem
  · intro id
    by_cases hid : id = graphId
    · subst hid
      have hlast : s'.lastReady id = some ⟨id, buildId, x⟩ := by
        simp [lastReady, hready]
      unfold StoredLast
      rw [hlast]
      refine ⟨hrows ▸ rowsOf_replaceRows, fun g hg hid => ?_⟩
      rw [hgraphs, finishGraph, mem_updateGraphs] at hg
      obtain ⟨g₁, hg₁, rfl⟩ := hg
      -- the row of this graph is the one that the build holds
      have hone : g₁ = g₀ := by
        refine List.inj_on_of_nodup_map h.ids hg₁ hg₀ ?_
        rw [hid₀, ← hid]
        split <;> rfl
      rw [hone, if_pos hheld]
    · have hstored := h.stored id
      have hlast : s'.lastReady id = s.lastReady id := by
        simp [lastReady, hready, Ne.symm hid]
      rw [storedLast_iff] at hstored ⊢
      rw [hlast, hrows, rowsOf_replaceRows_other hid]
      have hkept : ∀ g ∈ s'.graphs, g.id = id → g ∈ s.graphs := by
        intro g hg hgid
        rw [hgraphs, finishGraph, mem_updateGraphs] at hg
        obtain ⟨g₁, hg₁, rfl⟩ := hg
        split at hgid
        · rename_i hp
          simp only [OntologyGraph.heldBy, Bool.and_eq_true, decide_eq_true_eq] at hp
          exact absurd (hgid.symm.trans hp.1) hid
        · rename_i hp
          rw [if_neg hp]
          exact hg₁
      exact ⟨hstored.1, fun g hg hgid => hstored.2 g (hkept g hg hgid) hgid⟩

end GraphCluster

/-- The build whose step it is. -/
def LifecycleStep.build? : LifecycleStep χ → Option Nat
  | .claim i _ | .kickOff i | .acquire i | .renew i _ | .extract i _ | .startReplace i
  | .replace i _ | .throws i _ | .failBuild i | .finish i | .beat i | .renewal i _
  | .renewalFails i => some i
  | _ => none

/-- The build is kicked off. -/
def BuildPhase.begun : BuildPhase χ → Bool
  | .claiming _ _ | .refused | .claimed => false
  | _ => true

/-- The build runs on its server. -/
def BuildPhase.running : BuildPhase χ → Bool
  | .waiting | .starting | .extracting | .extracted _ | .held _ | .replacing _ | .failing _
  | .finishing => true
  | _ => false

theorem BuildPhase.begun_of_running {phase : BuildPhase χ} (h : phase.running = true) :
    phase.begun = true := by
  cases phase <;> first | rfl | cases h

namespace GraphCluster

variable {opts : LifecycleOptions} {pipeline : GraphPipeline χ ν} {s s' : GraphCluster χ ν}
  {a : LifecycleStep χ}

/-- An update of the rows that a build holds, which keeps their names and commits. -/
def OwnUpdate (b : GraphBuild χ) (graphs graphs' : List OntologyGraph) : Prop :=
  ∃ f, graphs' = (updateGraphs (·.heldBy b.graphId b.buildId) f graphs).2 ∧
    ∀ g, ((f g).id = g.id ∧ (f g).commit = g.commit) ∧
      ((g.status = .building ∨ g.build_id = "") → (f g).status = .building ∨ (f g).build_id = "")

theorem OwnUpdate.refl (b : GraphBuild χ) (graphs : List OntologyGraph) :
    OwnUpdate b graphs graphs :=
  ⟨id, by simp [updateGraphs], fun _ => ⟨⟨rfl, rfl⟩, id⟩⟩

/-- What a step of a build does. -/
inductive BuildActs (opts : LifecycleOptions) (pipeline : GraphPipeline χ ν)
    (s : GraphCluster χ ν) (i : Nat) (b : GraphBuild χ) (a : LifecycleStep χ) :
    GraphCluster χ ν → Prop where
  | claim {known liveHere : List String} {nowMs : Date} {phase : BuildPhase χ}
    (hphase : b.phase = .claiming known liveHere) (hnew : phase = .claimed ∨ phase = .refused) :
    BuildActs opts pipeline s i b a ({ s with
      graphs := (claimGraph opts nowMs b.graphId b.buildId liveHere s.graphs).2 }.setBuild i
        { b with phase })
  | kickOff {beating : Bool} (hphase : b.phase = .claimed) :
    BuildActs opts pipeline s i b a
      ((s.setLive b {}).setBuild i { b with phase := .waiting, beating })
  | acquire {live : LiveBuild} (hphase : b.phase = .waiting) :
    BuildActs opts pipeline s i b a ((s.setLive b live).setBuild i { b with phase := .starting })
  | startReplace {x : RepoExtraction χ} {live : LiveBuild}
    (hlive : (s.server b.server).liveBuilds.get b.buildId = some live)
    (hmax : (s.server b.server).pastMaxDuration opts live = false) :
    BuildActs opts pipeline s i b a ((s.setLive b { live with replacing := true }).setBuild i
      { b with phase := .replacing x })
  | replace {x : RepoExtraction χ} {j : Nat} {now : Date} (ha : a = .replace j now)
    (hphase : b.phase = .replacing x)
    (hheld : ∃ g ∈ s.graphs, g.heldBy b.graphId b.buildId = true) :
    BuildActs opts pipeline s i b a ({ s with
      graphs := (finishGraph now b.graphId b.buildId x.commit
        (replaceRows pipeline b.graphId x s.rows).1 s.graphs).2
      rows := (replaceRows pipeline b.graphId x s.rows).2
      ready := s.ready ++ [ReadyBuild.mk b.graphId b.buildId x] }.endBuild i b .finishing)
  /-- The build goes on, or stays where it is. -/
  | go {graphs : List OntologyGraph} {b' : GraphBuild χ} (hgraphs : OwnUpdate b s.graphs graphs)
    (hserver : b'.server = b.server) (hbuildId : b'.buildId = b.buildId)
    (hphase : b'.phase = b.phase ∨
      b.phase.running = true ∧ b'.phase.running = true ∧ b'.phase ≠ .waiting) :
    BuildActs opts pipeline s i b a ({ s with graphs }.setBuild i b')
  | finish : BuildActs opts pipeline s i b a
      ((s.setServer b.server { s.server b.server with
        liveBuilds := (s.server b.server).liveBuilds.delete b.buildId }).setBuild i
          { b with phase := .finished })

theorem buildActs_of_buildStep {i : Nat} {b : GraphBuild χ}
    (h : s.buildStep opts pipeline i b a = .ok s') : BuildActs opts pipeline s i b a s' := by
  have hrenewed : ∀ nowMs : Date,
      OwnUpdate b s.graphs (renewGraph opts nowMs b.graphId b.buildId s.graphs).2 :=
    fun _ => ⟨_, rfl, fun _ => ⟨⟨rfl, rfl⟩, id⟩⟩
  unfold buildStep at h
  split at h
  · -- claim
    split at h
    · cases h
      refine .claim ‹_› ?_
      split <;> simp
    · cases h
  · -- kickOff
    split at h
    · cases h
      exact .kickOff ‹_›
    · cases h
  · -- acquire
    split at h
    · rename_i live hphase _
      cases h
      exact .acquire hphase
    · cases h
  · -- renew
    dsimp only at h
    split at h
    · rename_i hphase
      cases h
      split <;> exact .go (hrenewed _) rfl rfl (.inr ⟨by rw [hphase]; rfl, rfl, nofun⟩)
    · rename_i x hphase
      cases h
      split <;> exact .go (hrenewed _) rfl rfl (.inr ⟨by rw [hphase]; rfl, rfl, nofun⟩)
    · cases h
  · -- extract
    split at h
    · rename_i hphase
      cases h
      exact .go (.refl b _) rfl rfl (.inr ⟨by rw [hphase]; rfl, rfl, nofun⟩)
    · cases h
  · -- startReplace
    split at h
    · rename_i x live hphase hlive
      split at h
      · cases h
        exact .go (.refl b _) rfl rfl (.inr ⟨by rw [hphase]; rfl, rfl, nofun⟩)
      · rename_i hmax
        cases h
        exact .startReplace hlive (Bool.not_eq_true _ ▸ hmax)
    · cases h
  · -- replace
    split at h
    · rename_i x hphase
      dsimp only at h
      split at h
      · rename_i hheld
        cases h
        exact .replace rfl hphase (updateGraphs_won.mp hheld)
      · cases h
        exact .go (.refl b _) rfl rfl (.inr ⟨by rw [hphase]; rfl, rfl, nofun⟩)
    · cases h
  · -- throws
    split at h
    case h_7 => cases h
    all_goals
      rename_i hphase
      cases h
      exact .go (.refl b _) rfl rfl (.inr ⟨by rw [hphase]; rfl, rfl, nofun⟩)
  · -- failBuild
    split at h
    · rename_i e hphase
      cases h
      exact .go ⟨_, rfl, fun _ => ⟨⟨rfl, rfl⟩, fun _ => .inr rfl⟩⟩ rfl rfl
        (.inr ⟨by rw [hphase]; rfl, rfl, nofun⟩)
    · cases h
  · -- finish
    split at h
    · cases h
      exact .finish
    · cases h
  · -- beat
    split at h
    · split at h
      · cases h
      · split at h <;> (cases h; exact .go (.refl b _) rfl rfl (.inl rfl))
    · cases h
  · -- renewal
    split at h
    · cases h
      exact .go (hrenewed _) rfl rfl (.inl rfl)
    · cases h
  · -- renewalFails
    split at h
    · cases h
      exact .go (.refl b _) rfl rfl (.inl rfl)
    · cases h
  · cases h

/-- What a step can do to what is stored. -/
inductive StoreStep (pipeline : GraphPipeline χ ν) (s : GraphCluster χ ν) (a : LifecycleStep χ)
    (s' : GraphCluster χ ν) : Prop where
  | same (h : SameStore s s')
  | insert (g : OntologyGraph) (hgraphs : s'.graphs = s.graphs ++ [g])
      (hnew : ∀ h ∈ s.graphs, h.id ≠ g.id) (hbuilding : g.status = .building)
      (hcommit : g.commit = "") (hrows : s'.rows = s.rows) (hready : s'.ready = s.ready)
  | replace (i : Nat) (b : GraphBuild χ) (x : RepoExtraction χ) (now : Date)
      (progress : BuildProgress) (ha : a = .replace i now) (hb : s.builds[i]? = some b)
      (hphase : b.phase = .replacing x)
      (hheld : ∃ g ∈ s.graphs, g.heldBy b.graphId b.buildId = true)
      (hgraphs : s'.graphs = (finishGraph now b.graphId b.buildId x.commit progress s.graphs).2)
      (hrows : s'.rows = (replaceRows pipeline b.graphId x s.rows).2)
      (hready : s'.ready = s.ready ++ [⟨b.graphId, b.buildId, x⟩])

/-- A call inserts a graph at most. -/
theorem callStep_store {i : Nat} {c : GraphCall} (h : s.callStep opts i c a = .ok s') :
    StoreStep pipeline s a s' := by
  unfold callStep at h
  split at h
  · split at h
    · split at h
      · cases h
        exact .same (.of_eq rfl rfl rfl)
      · split at h
        · rename_i hnew
          cases h
          simp only [Bool.and_eq_true, List.all_eq_true, decide_eq_true_eq] at hnew
          exact .insert _ rfl hnew.2 rfl rfl rfl rfl
        · cases h
    · cases h
  · split at h
    · split at h <;> (cases h; exact .same (.of_eq rfl rfl rfl))
    · cases h
  · split at h
    · dsimp only at h
      split at h <;> (cases h; exact .same (.of_eq rfl rfl rfl))
    · cases h
  · split at h
    · cases h
      exact .same (.of_update rfl rfl rfl (fun _ => ⟨rfl, rfl⟩) fun _ _ _ => .inr rfl)
    · cases h
  · cases h

theorem buildStep_store {i : Nat} {b : GraphBuild χ} (hb : s.builds[i]? = some b)
    (hi : a.build? = some i) (h : s.buildStep opts pipeline i b a = .ok s') :
    StoreStep pipeline s a s' := by
  cases buildActs_of_buildStep h with
  | claim =>
    exact .same (.of_update rfl rfl rfl (fun _ => ⟨rfl, rfl⟩) fun _ _ _ => .inl rfl)
  | replace ha hphase hheld =>
    subst ha
    cases hi
    exact .replace _ b _ _ _ rfl hb hphase hheld rfl rfl rfl
  | go hgraphs =>
    obtain ⟨f, hgraphs, hf⟩ := hgraphs
    exact .same (.of_update rfl rfl hgraphs (fun g => (hf g).1) fun g _ => (hf g).2)
  | _ => exact .same (.of_eq rfl rfl rfl)

/-- Each step does one of these to what is stored. -/
theorem act_store (h : s.act opts pipeline a = .ok s') : StoreStep pipeline s a s' := by
  cases a with
  | provision k key =>
    simp only [act] at h
    split at h <;> (cases h; exact .same (.of_eq rfl rfl rfl))
  | resolve k graphId accountId =>
    simp only [act] at h
    split at h
    · split at h
      · cases h
        exact .same (.of_eq rfl rfl rfl)
      · cases h
    · cases h
  | rebuild k graphId accountId buildId =>
    simp only [act] at h
    split at h
    · split at h
      · cases h
      · split at h
        · cases h
          exact .same (.of_eq rfl rfl rfl)
        · cases h
    · cases h
  | tick k ms =>
    cases h
    exact .same (.of_eq rfl rfl rfl)
  | restart k =>
    cases h
    by_cases hsqljs : opts.sqljs = true
    · refine .same (.of_update rfl rfl (if_pos hsqljs) (fun _ => ⟨rfl, rfl⟩) fun _ _ _ => .inr rfl)
    · exact .same (.of_eq rfl rfl (if_neg hsqljs))
  | insert | reread | look | release =>
    simp only [act] at h
    split at h
    · exact callStep_store h
    · cases h
  | claim | kickOff | acquire | renew | extract | startReplace | replace | throws | failBuild
  | finish | beat | renewal | renewalFails =>
    simp only [act] at h
    split at h
    · rename_i hb
      exact buildStep_store hb rfl h
    · cases h

/-- Each step keeps what is stored in line with the builds that were committed. -/
theorem StoreInv.act (h : s.StoreInv pipeline) (hs : s.act opts pipeline a = .ok s') :
    s'.StoreInv pipeline := by
  cases act_store hs with
  | same hsame => exact h.same hsame
  | insert g hgraphs hnew hbuilding hcommit hrows hready =>
    exact h.insert hgraphs hnew hbuilding hcommit hrows hready
  | replace i b x now progress ha hb hphase hheld hgraphs hrows hready =>
    exact h.replace hheld hgraphs hrows hready

/-- No step of a build that does not hold the row changes a row or a graph. -/
theorem buildStep_lost {i : Nat} {b : GraphBuild χ}
    (hclaim : ∀ known liveHere, b.phase ≠ .claiming known liveHere)
    (hlost : ∀ g ∈ s.graphs, g.heldBy b.graphId b.buildId = false)
    (h : s.buildStep opts pipeline i b a = .ok s') : s'.graphs = s.graphs ∧ s'.rows = s.rows := by
  cases buildActs_of_buildStep h with
  | claim hphase => exact absurd hphase (hclaim _ _)
  | replace _ _ hheld =>
    obtain ⟨g, hg, hheld⟩ := hheld
    rw [hlost g hg] at hheld
    cases hheld
  | go hgraphs =>
    obtain ⟨f, rfl, -⟩ := hgraphs
    rw [updateGraphs_of_none hlost]
    exact ⟨rfl, rfl⟩
  | _ => exact ⟨rfl, rfl⟩

end GraphCluster

/-! ## Live builds -/

namespace GraphCluster

variable {opts : LifecycleOptions} {pipeline : GraphPipeline χ ν} {s s' : GraphCluster χ ν}
  {a : LifecycleStep χ}

def Begun (s : GraphCluster χ ν) (id : String) : Prop :=
  ∃ b ∈ s.builds, b.buildId = id ∧ b.phase.begun = true

/-- What begins stays begun, and what is no longer live stays so. -/
def Cooled (opts : LifecycleOptions) (s s' : GraphCluster χ ν) : Prop :=
  ∀ id, s.Begun id → s'.Begun id ∧ ∀ k, (s.server k).isLiveHere opts id = false →
    (s'.server k).isLiveHere opts id = false

/-- The builds that `liveBuilds` had when a server looked: those that were not live then are not
    live any more. -/
structure Looked (opts : LifecycleOptions) (s : GraphCluster χ ν) (k : Nat)
    (known liveHere : List String) : Prop where
  among : ∀ id ∈ liveHere, id ∈ known
  begun : ∀ id ∈ known, s.Begun id
  rest : ∀ id ∈ known, id ∉ liveHere → (s.server k).isLiveHere opts id = false

/-- A release was refused for a build that was live, so its build was not. -/
structure LookedAt (opts : LifecycleOptions) (s : GraphCluster χ ν) (k : Nat) (buildId : String)
    (known : List String) : Prop where
  begun : buildId ∈ known → s.Begun buildId
  rest : buildId ∈ known → (s.server k).isLiveHere opts buildId = false

structure LiveInv (opts : LifecycleOptions) (s : GraphCluster χ ν) : Prop where
  named : ∀ b ∈ s.builds, b.buildId ≠ ""
  unique : ∀ (i j : Nat) (b b' : GraphBuild χ), s.builds[i]? = some b → s.builds[j]? = some b' →
    b.buildId = b'.buildId → i = j
  live : ∀ k id, ((s.server k).liveBuilds.get id).isSome = true ↔
    ∃ b ∈ s.builds, b.server = k ∧ b.buildId = id ∧ b.phase.running = true
  waiting : ∀ b ∈ s.builds, b.phase = .waiting →
    (s.server b.server).liveBuilds.get b.buildId = some {}
  claiming : ∀ b ∈ s.builds, ∀ known liveHere, b.phase = .claiming known liveHere →
    s.Looked opts b.server known liveHere
  looked : ∀ c ∈ s.calls, ∀ g known, c.phase = .looked g known →
    s.LookedAt opts c.server g.build_id known

variable {k : Nat} {known liveHere : List String} {id : String} {c : GraphCall}
  {graphs : List OntologyGraph} {i : Nat}

theorem Looked.cooled (h : s.Looked opts k known liveHere) (hc : Cooled opts s s') :
    s'.Looked opts k known liveHere where
  among := h.among
  begun id hid := (hc id (h.begun id hid)).1
  rest id hid hnot := (hc id (h.begun id hid)).2 k (h.rest id hid hnot)

theorem LookedAt.cooled {buildId : String} {known : List String}
    (h : s.LookedAt opts k buildId known) (hc : Cooled opts s s') :
    s'.LookedAt opts k buildId known where
  begun hid := (hc _ (h.begun hid)).1
  rest hid := (hc _ (h.begun hid)).2 k (h.rest hid)

theorem Cooled.of_eq (hbuilds : s'.builds = s.builds) (hserver : s'.server = s.server) :
    Cooled opts s s' := by
  intro id hbegun
  rw [Begun, hbuilds, hserver]
  exact ⟨hbegun, fun _ h => h⟩

/-- The keys of `liveBuilds` are builds that have begun. -/
theorem LiveInv.begun_of_known (h : s.LiveInv opts)
    (hid : id ∈ (s.server k).known) : s.Begun id := by
  obtain ⟨e, he, hkey⟩ := List.mem_map.mp hid
  have hsome : ((s.server k).liveBuilds.get id).isSome = true := by
    rw [Option.isSome_iff_ne_none]
    intro hnone
    exact InsertMap.get_eq_none_iff.mp hnone e he hkey
  obtain ⟨b, hb, -, hid, hrunning⟩ := (h.live k id).mp hsome
  exact ⟨b, hb, hid, BuildPhase.begun_of_running hrunning⟩

theorem setServer_self {v : GraphServer} : (s.setServer k v).server k = v :=
  if_pos rfl

theorem setServer_other {j k : Nat} {v : GraphServer} (hne : j ≠ k) :
    (s.setServer k v).server j = s.server j :=
  if_neg hne

/-! ### Steps of calls -/

/-- A call that looks finds its build not live, or does not release it. -/
theorem LiveInv.setCalls (h : s.LiveInv opts) {calls : List GraphCall}
    (hserver : s'.server = s.server) (hbuilds : s'.builds = s.builds) (hcalls : s'.calls = calls)
    (hlooked : ∀ c ∈ calls, ∀ g known, c.phase = .looked g known → c ∈ s.calls ∨
      (s.LookedAt opts c.server g.build_id known)) : s'.LiveInv opts where
  named := hbuilds ▸ h.named
  unique := hbuilds ▸ h.unique
  live := by
    rw [hserver, hbuilds]
    exact h.live
  waiting := by
    rw [hserver, hbuilds]
    exact h.waiting
  claiming b hb known liveHere hphase := by
    rw [hbuilds] at hb
    exact (h.claiming b hb known liveHere hphase).cooled (.of_eq hbuilds hserver)
  looked c hc g known hphase := by
    rw [hcalls] at hc
    have hold := (hlooked c hc g known hphase).elim (fun hc => h.looked c hc g known hphase) id
    exact hold.cooled (.of_eq hbuilds hserver)

theorem LiveInv.addBuild (h : s.LiveInv opts) {server : Nat} {graphId buildId : String}
    {phase : BuildPhase χ} (hnew : s.isNew buildId = true) (hrunning : phase.running = false)
    (hclaiming : ∀ known liveHere, phase = .claiming known liveHere →
      s.Looked opts server known liveHere) :
        (s.addBuild server graphId buildId phase).LiveInv opts := by
  simp only [isNew, Bool.and_eq_true, List.all_eq_true, decide_eq_true_eq] at hnew
  have hcool : Cooled opts s (s.addBuild server graphId buildId phase) := by
    rintro id ⟨b, hb, hid, hbegun⟩
    exact ⟨⟨b, List.mem_append_left _ hb, hid, hbegun⟩, fun _ h => h⟩
  constructor
  · intro b hb
    obtain hb | hb := List.mem_append.mp hb
    · exact h.named b hb
    · rw [List.mem_singleton.mp hb]
      exact hnew.1
  · intro i j b b' hi hj hid
    obtain hi | ⟨rfl, rfl⟩ := getElem?_append_cases hi
    · obtain hj | ⟨rfl, rfl⟩ := getElem?_append_cases hj
      · exact h.unique i j b b' hi hj hid
      · exact absurd hid (hnew.2 b (List.mem_of_getElem? hi))
    · obtain hj | ⟨rfl, rfl⟩ := getElem?_append_cases hj
      · exact absurd hid.symm (hnew.2 b' (List.mem_of_getElem? hj))
      · rfl
  · intro k id
    show ((s.server k).liveBuilds.get id).isSome = true ↔ _
    rw [h.live]
    constructor
    · rintro ⟨b, hb, hall⟩
      exact ⟨b, List.mem_append_left _ hb, hall⟩
    · rintro ⟨b, hb, hserver, hid, hrun⟩
      obtain hb | hb := List.mem_append.mp hb
      · exact ⟨b, hb, hserver, hid, hrun⟩
      · rw [List.mem_singleton.mp hb, hrunning] at hrun
        cases hrun
  · intro b hb hphase
    obtain hb | hb := List.mem_append.mp hb
    · exact h.waiting b hb hphase
    · rw [List.mem_singleton.mp hb] at hphase
      obtain rfl : phase = .waiting := hphase
      cases hrunning
  · intro b hb known liveHere hphase
    obtain hb | hb := List.mem_append.mp hb
    · exact (h.claiming b hb known liveHere hphase).cooled hcool
    · rw [List.mem_singleton.mp hb] at hphase ⊢
      exact (hclaiming known liveHere hphase).cooled hcool
  · intro c hc g known hphase
    exact (h.looked c hc g known hphase).cooled hcool

/-! ### Steps of builds -/

/-- Build `b`, the `i`-th one, becomes `b'`. -/
structure BuildMove (opts : LifecycleOptions) (s : GraphCluster χ ν) (i : Nat) (b b' : GraphBuild χ)
    (s' : GraphCluster χ ν) : Prop where
  builds : s'.builds = s.builds.set i b'
  calls : s'.calls = s.calls
  server_eq : b'.server = b.server
  buildId_eq : b'.buildId = b.buildId
  begun : b.phase.begun = true → b'.phase.begun = true
  claiming : ∀ known liveHere, b'.phase = .claiming known liveHere →
    b.phase = .claiming known liveHere
  others : ∀ k id, k ≠ b.server ∨ id ≠ b.buildId →
    (s'.server k).liveBuilds.get id = (s.server k).liveBuilds.get id
  own : ((s'.server b.server).liveBuilds.get b.buildId).isSome = b'.phase.running
  waiting : b'.phase = .waiting → (s'.server b.server).liveBuilds.get b.buildId = some {}
  clock : ∀ k, (s'.server k).clock = (s.server k).clock
  cools : b.phase.begun = true → (s.server b.server).isLiveHere opts b.buildId = false →
    (s'.server b.server).isLiveHere opts b.buildId = false

section Move

variable {i : Nat} {b b' : GraphBuild χ}

theorem BuildMove.cooled (hm : BuildMove opts s i b b' s') (h : s.LiveInv opts)
    (hb : s.builds[i]? = some b) : Cooled opts s s' := by
  rintro id ⟨b₁, hb₁, rfl, hbegun⟩
  obtain ⟨j, hj⟩ := List.mem_iff_getElem?.mp hb₁
  constructor
  · by_cases hij : i = j
    · subst hij
      cases hb.symm.trans hj
      refine ⟨b', ?_, hm.buildId_eq, hm.begun hbegun⟩
      rw [hm.builds]
      exact List.mem_of_getElem? (getElem?_set_self hb)
    · refine ⟨b₁, ?_, rfl, hbegun⟩
      rw [hm.builds]
      exact List.mem_of_getElem? ((List.getElem?_set_ne hij).trans hj)
  · intro k hcold
    by_cases hsame : k = b.server ∧ b₁.buildId = b.buildId
    · obtain ⟨rfl, hid⟩ := hsame
      obtain rfl := h.unique j i b₁ b hj hb hid
      cases hb.symm.trans hj
      exact hm.cools hbegun hcold
    · rw [not_and_or] at hsame
      unfold GraphServer.isLiveHere GraphServer.pastMaxDuration at hcold ⊢
      rw [hm.others k b₁.buildId hsame, hm.clock]
      exact hcold

/-- A step of a build keeps what the servers know of the live builds. -/
theorem LiveInv.move (h : s.LiveInv opts) (hb : s.builds[i]? = some b)
    (hm : BuildMove opts s i b b' s') : s'.LiveInv opts := by
  have hcool := hm.cooled h hb
  have hmem : ∀ b₁ ∈ s'.builds, b₁ = b' ∨ b₁ ∈ s.builds := by
    intro b₁ hb₁
    rw [hm.builds] at hb₁
    exact (List.mem_or_eq_of_mem_set hb₁).symm
  have hbmem := List.mem_of_getElem? hb
  constructor
  · intro b₁ hb₁
    obtain rfl | hb₁ := hmem b₁ hb₁
    · rw [hm.buildId_eq]
      exact h.named b hbmem
    · exact h.named b₁ hb₁
  · intro j j' b₁ b₂ hj hj' hid
    rw [hm.builds] at hj hj'
    obtain ⟨rfl, rfl⟩ | ⟨-, hold⟩ := getElem?_set_cases hj
    · obtain ⟨rfl, -⟩ | ⟨-, hold'⟩ := getElem?_set_cases hj'
      · rfl
      · exact h.unique _ _ b b₂ hb hold' (hm.buildId_eq ▸ hid)
    · obtain ⟨rfl, rfl⟩ | ⟨-, hold'⟩ := getElem?_set_cases hj'
      · exact h.unique _ _ b₁ b hold hb (hid.trans hm.buildId_eq)
      · exact h.unique _ _ b₁ b₂ hold hold' hid
  · intro k id
    by_cases hsame : k = b.server ∧ id = b.buildId
    · obtain ⟨rfl, rfl⟩ := hsame
      rw [hm.own]
      constructor
      · intro hrunning
        refine ⟨b', ?_, hm.server_eq, hm.buildId_eq, hrunning⟩
        rw [hm.builds]
        exact List.mem_of_getElem? (getElem?_set_self hb)
      · rintro ⟨b₁, hb₁, -, hid, hrunning⟩
        obtain ⟨j, hj⟩ := List.mem_iff_getElem?.mp hb₁
        rw [hm.builds] at hj
        obtain ⟨-, rfl⟩ | ⟨hij, hold⟩ := getElem?_set_cases hj
        · exact hrunning
        · exact absurd (h.unique j i b₁ b hold hb hid).symm hij
    · rw [hm.others k id (not_and_or.mp hsame), h.live]
      constructor
      · rintro ⟨b₁, hb₁, hserver, hid, hrunning⟩
        obtain ⟨j, hj⟩ := List.mem_iff_getElem?.mp hb₁
        have hij : i ≠ j := by
          rintro rfl
          cases hb.symm.trans hj
          exact hsame ⟨hserver.symm, hid.symm⟩
        refine ⟨b₁, ?_, hserver, hid, hrunning⟩
        rw [hm.builds]
        exact List.mem_of_getElem? ((List.getElem?_set_ne hij).trans hj)
      · rintro ⟨b₁, hb₁, hserver, hid, hrunning⟩
        obtain rfl | hb₁ := hmem b₁ hb₁
        · exact absurd ⟨hserver.symm.trans hm.server_eq, hid.symm.trans hm.buildId_eq⟩ hsame
        · exact ⟨b₁, hb₁, hserver, hid, hrunning⟩
  · intro b₁ hb₁ hphase
    obtain ⟨j, hj⟩ := List.mem_iff_getElem?.mp hb₁
    rw [hm.builds] at hj
    obtain ⟨-, rfl⟩ | ⟨hij, hold⟩ := getElem?_set_cases hj
    · rw [hm.server_eq, hm.buildId_eq]
      exact hm.waiting hphase
    · have hne : b₁.server ≠ b.server ∨ b₁.buildId ≠ b.buildId :=
        .inr fun hid => hij (h.unique j i b₁ b hold hb hid).symm
      rw [hm.others _ _ hne]
      exact h.waiting b₁ (List.mem_of_getElem? hold) hphase
  · intro b₁ hb₁ known liveHere hphase
    obtain rfl | hb₁ := hmem b₁ hb₁
    · rw [hm.server_eq]
      exact (h.claiming b hbmem known liveHere (hm.claiming known liveHere hphase)).cooled hcool
    · exact (h.claiming b₁ hb₁ known liveHere hphase).cooled hcool
  · intro c hc g known hphase
    rw [hm.calls] at hc
    exact (h.looked c hc g known hphase).cooled hcool

/-- The server of the build has what it had. -/
theorem BuildMove.of_server_eq {rows : List (StoredRow ν)} {ready : List (ReadyBuild χ)}
    (hown : ((s.server b.server).liveBuilds.get b.buildId).isSome = b.phase.running)
    (hserver_eq : b'.server = b.server) (hbuildId_eq : b'.buildId = b.buildId)
    (hrunning : b'.phase.running = b.phase.running)
    (hbegun : b.phase.begun = true → b'.phase.begun = true)
    (hclaiming : ∀ known liveHere, b'.phase = .claiming known liveHere →
      b.phase = .claiming known liveHere)
    (hwaiting : b'.phase = .waiting → (s.server b.server).liveBuilds.get b.buildId = some {}) :
    BuildMove opts s i b b' ({ s with graphs, rows, ready }.setBuild i b') where
  builds := rfl
  calls := rfl
  server_eq := hserver_eq
  buildId_eq := hbuildId_eq
  begun := hbegun
  claiming := hclaiming
  others _ _ _ := rfl
  own := hown.trans hrunning.symm
  waiting := hwaiting
  clock _ := rfl
  cools _ h := h

/-- A step between two phases in which the build runs. -/
theorem BuildMove.of_running {rows : List (StoredRow ν)} {ready : List (ReadyBuild χ)}
    (hown : ((s.server b.server).liveBuilds.get b.buildId).isSome = b.phase.running)
    (hserver_eq : b'.server = b.server) (hbuildId_eq : b'.buildId = b.buildId)
    (hrunning : b.phase.running = true ∧ b'.phase.running = true ∧ b'.phase ≠ .waiting) :
    BuildMove opts s i b b' ({ s with graphs, rows, ready }.setBuild i b') := by
  obtain ⟨hwas, his, hwaiting⟩ := hrunning
  apply BuildMove.of_server_eq hown hserver_eq hbuildId_eq (his.trans hwas.symm)
  · exact fun _ => BuildPhase.begun_of_running his
  · intro known liveHere hphase
    rw [hphase] at his
    cases his
  · exact fun hphase => absurd hphase hwaiting

/-- The entry of the build in `liveBuilds` becomes `live?`. -/
theorem BuildMove.of_live {liveBuilds : InsertMap String LiveBuild} {live? : Option LiveBuild}
    (hself : liveBuilds.get b.buildId = live?)
    (hothers : ∀ {id}, id ≠ b.buildId →
      liveBuilds.get id = (s.server b.server).liveBuilds.get id)
    (hserver_eq : b'.server = b.server) (hbuildId_eq : b'.buildId = b.buildId)
    (hrunning : live?.isSome = b'.phase.running) (hbegun : b'.phase.begun = true)
    (hwaiting : b'.phase = .waiting → live? = some {})
    (hcools : b.phase.begun = true → (s.server b.server).isLiveHere opts b.buildId = false →
      live?.any (fun live => live.replacing || !(s.server b.server).pastMaxDuration opts live) =
        false) :
    BuildMove opts s i b b'
      ((s.setServer b.server { s.server b.server with liveBuilds }).setBuild i b') where
  builds := rfl
  calls := rfl
  server_eq := hserver_eq
  buildId_eq := hbuildId_eq
  begun _ := hbegun
  claiming known liveHere hphase := by
    rw [hphase] at hbegun
    cases hbegun
  others k id hne := by
    show ((s.setServer _ _).server k).liveBuilds.get id = _
    by_cases hk : k = b.server
    · subst hk
      rw [setServer_self]
      exact hothers (hne.resolve_left (not_not.mpr rfl))
    · rw [setServer_other hk]
  own := by
    show (((s.setServer _ _).server _).liveBuilds.get _).isSome = _
    rw [setServer_self, ← hrunning, ← hself]
  waiting hphase := by
    show ((s.setServer _ _).server _).liveBuilds.get _ = _
    rw [setServer_self, ← hwaiting hphase, ← hself]
  clock k := by
    show ((s.setServer _ _).server k).clock = _
    by_cases hk : k = b.server
    · rw [hk, setServer_self]
    · rw [setServer_other hk]
  cools hwas hcold := by
    show ((s.setServer _ _).server _).isLiveHere opts b.buildId = false
    rw [setServer_self, GraphServer.isLiveHere, hself]
    exact hcools hwas hcold

theorem LiveInv.own (h : s.LiveInv opts) (hb : s.builds[i]? = some b) :
    ((s.server b.server).liveBuilds.get b.buildId).isSome = b.phase.running := by
  rw [Bool.eq_iff_iff, h.live]
  constructor
  · rintro ⟨b₁, hb₁, -, hid, hrunning⟩
    obtain ⟨j, hj⟩ := List.mem_iff_getElem?.mp hb₁
    obtain rfl := h.unique i j b b₁ hb hj hid.symm
    cases hb.symm.trans hj
    exact hrunning
  · intro hrunning
    exact ⟨b, List.mem_of_getElem? hb, rfl, rfl, hrunning⟩

theorem LiveInv.buildStep (h : s.LiveInv opts) (hb : s.builds[i]? = some b)
    (hs : s.buildStep opts pipeline i b a = .ok s') : ∃ b', BuildMove opts s i b b' s' := by
  have hown := h.own hb
  have hwaiting := h.waiting b (List.mem_of_getElem? hb)
  cases buildActs_of_buildStep hs with
  | @claim _ _ _ phase hphase hnew =>
    have hrunning : phase.running = b.phase.running := by
      obtain rfl | rfl := hnew <;> (rw [hphase]; rfl)
    refine ⟨_, .of_server_eq hown rfl rfl hrunning ?_ ?_ ?_⟩
    · simp [hphase, BuildPhase.begun]
    · rintro known liveHere rfl
      simp at hnew
    · rintro rfl
      simp at hnew
  | kickOff hphase =>
    refine ⟨_, .of_live (InsertMap.get_set_self _ _ _) InsertMap.get_set_other rfl rfl rfl rfl
      (fun _ => rfl) fun hbegun => ?_⟩
    simp [hphase, BuildPhase.begun] at hbegun
  | acquire hphase =>
    -- until now the build has waited without a limit
    refine ⟨_, .of_live (InsertMap.get_set_self _ _ _) InsertMap.get_set_other rfl rfl rfl rfl
      (by rintro ⟨⟩) fun _ hcold => ?_⟩
    rw [GraphServer.isLiveHere, hwaiting hphase] at hcold
    cases hcold
  | startReplace hlive hmax =>
    refine ⟨_, .of_live (InsertMap.get_set_self _ _ _) InsertMap.get_set_other rfl rfl rfl rfl
      (by rintro ⟨⟩) fun _ hcold => ?_⟩
    simp [GraphServer.isLiveHere, hlive, hmax] at hcold
  | replace _ hphase =>
    exact ⟨_, .of_running hown rfl rfl ⟨by rw [hphase]; rfl, rfl, by rintro ⟨⟩⟩⟩
  | go _ hserver hbuildId hphase =>
    obtain heq | hrunning := hphase
    · exact ⟨_, .of_server_eq hown hserver hbuildId (by rw [heq]) (by rw [heq]; exact id)
        (fun _ _ h => heq ▸ h) (by rw [heq]; exact hwaiting)⟩
    · exact ⟨_, .of_running hown hserver hbuildId hrunning⟩
  | finish =>
    exact ⟨_, .of_live (InsertMap.get_delete_self _ _) InsertMap.get_delete_other rfl rfl rfl rfl
      (by rintro ⟨⟩) fun _ _ => rfl⟩

end Move

/-! ### Every step -/

theorem LiveInv.setCall (h : s.LiveInv opts) {phase : CallPhase}
    (hlooked : ∀ g known, phase = .looked g known → s.LookedAt opts c.server g.build_id known) :
    ({ s with graphs }.setCall i c phase).LiveInv opts :=
  h.setCalls rfl rfl rfl fun c' hc' g known hphase => by
    obtain hc' | rfl := List.mem_or_eq_of_mem_set hc'
    · exact .inl hc'
    · exact .inr (hlooked g known hphase)

theorem LiveInv.returned (h : s.LiveInv opts) :
    ({ s with graphs }.setCall i c .returned).LiveInv opts :=
  h.setCall nofun

theorem LiveInv.addCall (h : s.LiveInv opts) (hphase : ∀ g known, c.phase ≠ .looked g known) :
    { s with calls := s.calls ++ [c] }.LiveInv opts :=
  h.setCalls rfl rfl rfl fun c' hc' g known hp => by
    obtain hc' | hc' := List.mem_append.mp hc'
    · exact .inl hc'
    · rw [List.mem_singleton.mp hc'] at hp
      exact absurd hp (hphase g known)

theorem LiveInv.callStep (h : s.LiveInv opts)
    (hs : s.callStep opts i c a = .ok s') : s'.LiveInv opts := by
  unfold GraphCluster.callStep at hs
  split at hs
  · -- insert
    split at hs
    · split at hs
      · cases hs
        exact h.setCall nofun
      · split at hs
        · rename_i hnew
          cases hs
          exact h.returned.addBuild (Bool.and_eq_true_iff.mp hnew).1 rfl nofun
        · cases hs
    · cases hs
  · -- reread
    split at hs
    · split at hs <;> (cases hs; exact h.setCall nofun)
    · cases hs
  · -- look
    split at hs
    · rename_i g hphase
      dsimp only at hs
      split at hs
      · cases hs
        exact h.setCall nofun
      · rename_i hgoes
        cases hs
        refine h.setCall fun g' known' hp => ?_
        obtain ⟨rfl, rfl⟩ := CallPhase.looked.inj hp
        simp only [Bool.or_eq_true, not_or, Bool.not_eq_true] at hgoes
        exact ⟨h.begun_of_known, fun _ => hgoes.1.2⟩
    · cases hs
  · -- release
    split at hs
    · cases hs
      exact h.setCall nofun
    · cases hs
  · cases hs

/-- What is not live stays so while time passes. -/
theorem isLiveHere_of_later {v v' : GraphServer} (hlive : v'.liveBuilds = v.liveBuilds)
    (hclock : v.clock ≤ v'.clock) (h : v.isLiveHere opts id = false) :
    v'.isLiveHere opts id = false := by
  unfold GraphServer.isLiveHere GraphServer.pastMaxDuration at h ⊢
  rw [hlive]
  cases hget : v.liveBuilds.get id with
  | none => rfl
  | some live =>
    rw [hget] at h
    obtain ⟨startedAt, replacing⟩ := live
    cases startedAt with
    | none => simp at h
    | some t =>
      simp only [Option.any_some, Bool.or_eq_false_iff, Bool.not_eq_false', decide_eq_true_eq]
        at h ⊢
      exact ⟨h.1, by omega⟩

theorem LiveInv.tick (h : s.LiveInv opts) {k ms : Nat} :
    (s.setServer k { s.server k with clock := (s.server k).clock + ms }).LiveInv opts := by
  have hlive : ∀ j, ((s.setServer k { s.server k with clock := (s.server k).clock + ms }).server
      j).liveBuilds = (s.server j).liveBuilds := by
    intro j
    by_cases hj : j = k
    · rw [hj, setServer_self]
    · rw [setServer_other hj]
  have hcool : Cooled opts s
      (s.setServer k { s.server k with clock := (s.server k).clock + ms }) := by
    refine fun id hbegun => ⟨hbegun, fun j hcold => isLiveHere_of_later (hlive j) ?_ hcold⟩
    by_cases hj : j = k
    · have hle : (s.server k).clock ≤ (s.server k).clock + (ms : Int) := by omega
      simpa only [hj, setServer_self] using hle
    · exact Int.le_of_eq (by rw [setServer_other hj])
  exact ⟨h.named, h.unique, fun j id => by rw [hlive]; exact h.live j id,
    fun b hb hphase => by rw [hlive]; exact h.waiting b hb hphase,
    fun b hb known liveHere hphase => (h.claiming b hb known liveHere hphase).cooled hcool,
    fun c hc g known hphase => (h.looked c hc g known hphase).cooled hcool⟩

theorem stop_buildId (k : Nat) (b : GraphBuild χ) : (b.stop k).buildId = b.buildId := by
  unfold GraphBuild.stop
  split <;> rfl

/-- A build that is not lost when the server stops is another server's. -/
theorem stop_cases (k : Nat) (b : GraphBuild χ) :
    (b.server = k ∧ (b.stop k).phase = .lost ∧ (b.stop k).server = k) ∨
      (b.server ≠ k ∧ b.stop k = b) := by
  unfold GraphBuild.stop
  split
  · rename_i hk
    exact .inl ⟨hk, rfl, hk⟩
  · rename_i hk
    exact .inr ⟨hk, rfl⟩

/-- Nothing of the server that stops is live any more. -/
theorem LiveInv.restart (h : s.LiveInv opts) (hcalls : s'.calls = s.calls.map (GraphCall.stop k))
    (hbuilds : s'.builds = s.builds.map (GraphBuild.stop k))
    (hserver : s'.server = (s.setServer k {}).server) : s'.LiveInv opts := by
  have hgone : ∀ id, (s'.server k).liveBuilds.get id = none := by
    intro id
    rw [hserver, setServer_self]
    rfl
  have hother : ∀ j, j ≠ k → s'.server j = s.server j := by
    intro j hj
    rw [hserver, setServer_other hj]
  have hcool : Cooled opts s s' := by
    rintro id ⟨b, hb, hid, hbegun⟩
    constructor
    · refine ⟨b.stop k, hbuilds ▸ List.mem_map_of_mem hb, (stop_buildId k b).trans hid, ?_⟩
      obtain ⟨-, hlost, -⟩ | ⟨-, hsame⟩ := stop_cases k b
      · rw [hlost]
        rfl
      · rw [hsame, hbegun]
    · intro j hcold
      by_cases hj : j = k
      · unfold GraphServer.isLiveHere
        rw [hj, hgone]
        rfl
      · rw [hother j hj]
        exact hcold
  constructor
  · intro b hb
    rw [hbuilds] at hb
    obtain ⟨b₀, hb₀, rfl⟩ := List.mem_map.mp hb
    rw [stop_buildId]
    exact h.named b₀ hb₀
  · intro i j b b' hi hj hid
    rw [hbuilds, List.getElem?_map] at hi hj
    obtain ⟨b₀, hold, rfl⟩ := Option.map_eq_some_iff.mp hi
    obtain ⟨b₁, hold', rfl⟩ := Option.map_eq_some_iff.mp hj
    rw [stop_buildId, stop_buildId] at hid
    exact h.unique i j b₀ b₁ hold hold' hid
  · intro j id
    by_cases hj : j = k
    · rw [hj, hgone]
      refine ⟨nofun, ?_⟩
      rintro ⟨b, hb, hserver, -, hrunning⟩
      rw [hbuilds] at hb
      obtain ⟨b₀, -, rfl⟩ := List.mem_map.mp hb
      obtain ⟨-, hlost, -⟩ | ⟨hne, hsame⟩ := stop_cases k b₀
      · rw [hlost] at hrunning
        cases hrunning
      · exact absurd (hsame ▸ hserver) hne
    · rw [hother j hj, h.live, hbuilds]
      constructor
      · rintro ⟨b, hb, hserver, hid, hrunning⟩
        obtain ⟨hk, -, -⟩ | ⟨-, hsame⟩ := stop_cases k b
        · exact absurd (hserver.symm.trans hk) hj
        · exact ⟨b, hsame ▸ List.mem_map_of_mem hb, hserver, hid, hrunning⟩
      · rintro ⟨b, hb, hserver, hid, hrunning⟩
        obtain ⟨b₀, hb₀, rfl⟩ := List.mem_map.mp hb
        obtain ⟨-, -, hk⟩ | ⟨-, hsame⟩ := stop_cases k b₀
        · exact absurd (hserver.symm.trans hk) hj
        · rw [hsame] at hserver hid hrunning
          exact ⟨b₀, hb₀, hserver, hid, hrunning⟩
  · intro b hb hphase
    rw [hbuilds] at hb
    obtain ⟨b₀, hb₀, rfl⟩ := List.mem_map.mp hb
    obtain ⟨-, hlost, -⟩ | ⟨hne, hsame⟩ := stop_cases k b₀
    · rw [hlost] at hphase
      cases hphase
    · rw [hsame] at hphase ⊢
      rw [hother _ hne]
      exact h.waiting b₀ hb₀ hphase
  · intro b hb known liveHere hphase
    rw [hbuilds] at hb
    obtain ⟨b₀, hb₀, rfl⟩ := List.mem_map.mp hb
    obtain ⟨-, hlost, -⟩ | ⟨-, hsame⟩ := stop_cases k b₀
    · rw [hlost] at hphase
      cases hphase
    · rw [hsame] at hphase ⊢
      exact (h.claiming b₀ hb₀ known liveHere hphase).cooled hcool
  · intro c hc g known hphase
    rw [hcalls] at hc
    obtain ⟨c₀, hc₀, rfl⟩ := List.mem_map.mp hc
    unfold GraphCall.stop at hphase ⊢
    split
    · rename_i hk
      rw [if_pos hk] at hphase
      cases hphase
    · rename_i hk
      rw [if_neg hk] at hphase
      exact (h.looked c₀ hc₀ g known hphase).cooled hcool

/-- Each step keeps what the servers know of the live builds. -/
theorem LiveInv.act (h : s.LiveInv opts) (hs : s.act opts pipeline a = .ok s') :
    s'.LiveInv opts := by
  cases a with
  | provision k key =>
    simp only [GraphCluster.act] at hs
    split at hs <;> (cases hs; exact h.addCall nofun)
  | resolve k graphId accountId =>
    simp only [GraphCluster.act] at hs
    split at hs
    · split at hs
      · cases hs
        exact h.addCall nofun
      · cases hs
    · cases hs
  | rebuild k graphId accountId buildId =>
    simp only [GraphCluster.act] at hs
    split at hs
    · split at hs
      · cases hs
      · split at hs
        · rename_i hnew
          cases hs
          refine h.addBuild hnew rfl fun known liveHere hphase => ?_
          obtain ⟨rfl, rfl⟩ := BuildPhase.claiming.inj hphase
          refine ⟨fun id hid => (List.mem_filter.mp hid).1, fun id => h.begun_of_known, ?_⟩
          intro id hid hnot
          rw [List.mem_filter, not_and, Bool.not_eq_true] at hnot
          exact hnot hid
        · cases hs
    · cases hs
  | tick k ms =>
    cases hs
    exact h.tick
  | restart k =>
    cases hs
    exact h.restart rfl rfl rfl
  | insert | reread | look | release =>
    simp only [GraphCluster.act] at hs
    split at hs
    · exact h.callStep hs
    · cases hs
  | claim | kickOff | acquire | renew | extract | startReplace | replace | throws | failBuild
  | finish | beat | renewal | renewalFails =>
    simp only [GraphCluster.act] at hs
    split at hs
    · rename_i hb
      obtain ⟨b', hm⟩ := h.buildStep hb hs
      exact h.move hb hm
    · cases hs

/-! ## The fence -/

/-- Stored rows are replaced only by a build that holds its graph when it commits. -/
def Fenced (s : GraphCluster χ ν) (a : LifecycleStep χ) (s' : GraphCluster χ ν) : Prop :=
  s'.rows ≠ s.rows ∨ s'.ready ≠ s.ready → ∃ i b x now, a = .replace i now ∧
    s.builds[i]? = some b ∧ b.phase = .replacing x ∧
    ∃ g ∈ s.graphs, g.heldBy b.graphId b.buildId = true

/-- A build that has lost its graph changes no row and no graph. -/
def LostQuiet (s : GraphCluster χ ν) (a : LifecycleStep χ) (s' : GraphCluster χ ν) : Prop :=
  ∀ i b, a.build? = some i → s.builds[i]? = some b →
    (∀ known liveHere, b.phase ≠ .claiming known liveHere) →
    (∀ g ∈ s.graphs, g.heldBy b.graphId b.buildId = false) →
    s'.graphs = s.graphs ∧ s'.rows = s.rows

/-- The server that releases or claims a graph in a step. -/
def taker (s : GraphCluster χ ν) : LifecycleStep χ → Option Nat
  | .release i _ => s.calls[i]?.map (·.server)
  | .claim i _ => s.builds[i]?.map (·.server)
  | _ => none

/-- No release or claim takes a graph from a build that its server runs within the time limit. -/
def LiveKept (opts : LifecycleOptions) (s : GraphCluster χ ν) (a : LifecycleStep χ)
    (s' : GraphCluster χ ν) : Prop :=
  ∀ k, s.taker a = some k → ∀ b ∈ s.builds, b.server = k → b.phase.running = true →
    (s.server k).isLiveHere opts b.buildId = true → ∀ g ∈ s.graphs, g.build_id = b.buildId →
    ∃ g' ∈ s'.graphs, g'.id = g.id ∧ g'.build_id = b.buildId

/-- The build of the row began after the server had looked, is within its time limit and has not
    renewed its lease in time. -/
def Overtaken (opts : LifecycleOptions) (v : GraphServer) (known : List String) (nowMs : Date)
    (g : OntologyGraph) : Prop :=
  g.build_id ∉ known ∧ v.isLiveHere opts g.build_id = true ∧ g.leaseExpired nowMs = true

/-- What the server knew when it looked is still enough when the statement runs. -/
def NotOvertaken (opts : LifecycleOptions) (s : GraphCluster χ ν) : LifecycleStep χ → Prop
  | .release i nowMs => ∀ c g₀ known, s.calls[i]? = some c → c.phase = .looked g₀ known →
    ∀ g ∈ s.graphs, g.heldBy g₀.id g₀.build_id = true →
      ¬Overtaken opts (s.server c.server) known nowMs g
  | .claim i nowMs => ∀ b known liveHere, s.builds[i]? = some b →
    b.phase = .claiming known liveHere → ∀ g ∈ s.graphs, g.id = b.graphId →
      ¬Overtaken opts (s.server b.server) known nowMs g
  | _ => True

theorem fenced_act (hs : s.act opts pipeline a = .ok s') : s.Fenced a s' := by
  intro hchanged
  cases act_store hs with
  | same hsame => exact absurd hchanged (by simp [hsame.rows, hsame.ready])
  | insert g hgraphs hnew hbuilding hcommit hrows hready =>
    exact absurd hchanged (by simp [hrows, hready])
  | replace i b x now progress ha hb hphase hheld hgraphs hrows hready =>
    exact ⟨i, b, x, now, ha, hb, hphase, hheld⟩

theorem lostQuiet_act (hs : s.act opts pipeline a = .ok s') : s.LostQuiet a s' := by
  intro i b hi hb hclaim hlost
  cases a with
  | claim | kickOff | acquire | renew | extract | startReplace | replace | throws | failBuild
  | finish | beat | renewal | renewalFails =>
    cases hi
    simp only [GraphCluster.act, hb] at hs
    exact buildStep_lost hclaim hlost hs
  | _ => cases hi

/-- What is live on a server is a build that runs there. -/
theorem LiveInv.exists_running (h : s.LiveInv opts)
    (hlive : (s.server k).isLiveHere opts id = true) :
    ∃ b ∈ s.builds, b.server = k ∧ b.buildId = id ∧ b.phase.running = true := by
  refine (h.live k id).mp ?_
  obtain ⟨live, hget, -⟩ := (Option.any_eq_true _ _).mp hlive
  rw [hget]
  rfl

theorem heldBy_iff {g : OntologyGraph} {graphId buildId : String} :
    g.heldBy graphId buildId = true ↔ g.id = graphId ∧ g.build_id = buildId := by
  simp [OntologyGraph.heldBy]

/-- A row that an update leaves with the identifier of `g` comes from `g`. -/
theorem StoreInv.eq_of_updated (h : s.StoreInv pipeline) {p : OntologyGraph → Bool}
    {f : OntologyGraph → OntologyGraph} {g g' : OntologyGraph}
    (hg' : g' ∈ (updateGraphs p f s.graphs).2) (hf : ∀ g, (f g).id = g.id) (hg : g ∈ s.graphs)
    (hid : g'.id = g.id) :
    g' = if p g then f g else g := by
  obtain ⟨g₁, hg₁, rfl⟩ := mem_updateGraphs.mp hg'
  have hsame : g₁.id = g.id := by
    rw [← hid]
    split
    · rw [hf]
    · rfl
  rw [List.inj_on_of_nodup_map h.ids hg₁ hg hsame]

/-- A claim takes a live build exactly where it is overtaken. -/
theorem liveKept_claim (hstore : s.StoreInv pipeline) (h : s.LiveInv opts) {nowMs : Date}
    {b : GraphBuild χ} (hb : s.builds[i]? = some b)
    (hphase : b.phase = .claiming known liveHere)
    (hgraphs : s'.graphs = (claimGraph opts nowMs b.graphId b.buildId liveHere s.graphs).2) :
    LiveKept opts s (.claim i nowMs) s' ↔ NotOvertaken opts s (.claim i nowMs) := by
  have hlooked := h.claiming b (List.mem_of_getElem? hb) known liveHere hphase
  constructor
  · intro hkept b₁ known₁ liveHere₁ hb₁ hphase₁ g hg hid ⟨hnew, hlive, hexpired⟩
    cases hb.symm.trans hb₁
    obtain ⟨rfl, rfl⟩ := BuildPhase.claiming.inj (hphase.symm.trans hphase₁)
    obtain ⟨b₂, hb₂, hserver, hid₂, hrunning⟩ := h.exists_running hlive
    obtain ⟨g', hg', hid', hbuild⟩ := hkept b.server (by simp [taker, hb]) b₂ hb₂ hserver hrunning
      (hid₂ ▸ hlive) g hg hid₂.symm
    have hnot : g.build_id ∉ liveHere := fun hmem => hnew (hlooked.among _ hmem)
    have hclaimable : g.claimable nowMs liveHere = true := by
      simp [OntologyGraph.claimable, hexpired, hnot]
    rw [hgraphs] at hg'
    have hrow := hstore.eq_of_updated hg' (fun _ => rfl) hg hid'
    rw [if_pos (by simp [hid, hclaimable])] at hrow
    rw [hrow] at hbuild
    -- the row is now that of the claiming build, which does not run yet
    obtain ⟨j, hj⟩ := List.mem_iff_getElem?.mp hb₂
    obtain rfl := h.unique i j b b₂ hb hj hbuild
    cases hb.symm.trans hj
    rw [hphase] at hrunning
    cases hrunning
  · intro hfree k hk b₂ hb₂ hserver hrunning hlive g hg hbuild
    rw [taker, hb] at hk
    cases hk
    refine ⟨_, hgraphs ▸ mem_updateGraphs.mpr ⟨g, hg, rfl⟩, ?_⟩
    have hnot : (decide (g.id = b.graphId) && g.claimable nowMs liveHere) = false := by
      rw [Bool.eq_false_iff]
      intro htaken
      simp only [OntologyGraph.claimable, Bool.and_eq_true, Bool.or_eq_true, decide_eq_true_eq,
        Bool.not_eq_true', ← Bool.not_eq_true, List.contains_iff_mem] at htaken
      obtain ⟨hid, hidle | ⟨hexpired, hout⟩⟩ := htaken
      · obtain hbuilding | hempty := hstore.owner g hg
        · exact hidle hbuilding
        · exact h.named b₂ hb₂ (hbuild.symm.trans hempty)
      · have hin : g.build_id ∈ known := by
          by_contra hnew
          exact hfree b known liveHere hb hphase g hg hid ⟨hnew, hbuild ▸ hlive, hexpired⟩
        have hcold := hlooked.rest _ hin hout
        rw [hbuild, hlive] at hcold
        cases hcold
    rw [hnot]
    exact ⟨rfl, hbuild⟩

/-- A release takes a live build exactly where it is overtaken. -/
theorem liveKept_release (hstore : s.StoreInv pipeline) (h : s.LiveInv opts)
    {nowMs : Date} {g₀ : OntologyGraph} {known : List String}
    (hc : s.calls[i]? = some c) (hphase : c.phase = .looked g₀ known)
    (hgraphs : s'.graphs = (releaseGraph nowMs g₀.id g₀.build_id s.graphs).2) :
    LiveKept opts s (.release i nowMs) s' ↔ NotOvertaken opts s (.release i nowMs) := by
  have hlooked := h.looked c (List.mem_of_getElem? hc) g₀ known hphase
  constructor
  · intro hkept c₁ g₁ known₁ hc₁ hphase₁ g hg hheld ⟨hnew, hlive, hexpired⟩
    cases hc.symm.trans hc₁
    obtain ⟨rfl, rfl⟩ := CallPhase.looked.inj (hphase.symm.trans hphase₁)
    obtain ⟨b₂, hb₂, hserver, hid₂, hrunning⟩ := h.exists_running hlive
    obtain ⟨g', hg', hid', hbuild⟩ := hkept c.server (by simp [taker, hc]) b₂ hb₂ hserver hrunning
      (hid₂ ▸ hlive) g hg hid₂.symm
    have hbuilding : g.status = .building := by
      obtain hbuilding | hempty := hstore.owner g hg
      · exact hbuilding
      · exact absurd (hid₂.trans hempty) (h.named b₂ hb₂)
    rw [hgraphs] at hg'
    have hrow := hstore.eq_of_updated hg' (fun _ => rfl) hg hid'
    rw [if_pos (by simp [hheld, hbuilding, hexpired])] at hrow
    rw [hrow] at hbuild
    exact h.named b₂ hb₂ hbuild.symm
  · intro hfree k hk b₂ hb₂ hserver hrunning hlive g hg hbuild
    rw [taker, hc] at hk
    cases hk
    refine ⟨_, hgraphs ▸ mem_updateGraphs.mpr ⟨g, hg, rfl⟩, ?_⟩
    have hnot : (g.heldBy g₀.id g₀.build_id && decide (g.status = .building) &&
        g.leaseExpired nowMs) = false := by
      rw [Bool.eq_false_iff]
      intro htaken
      simp only [Bool.and_eq_true, decide_eq_true_eq] at htaken
      obtain ⟨⟨hheld, -⟩, hexpired⟩ := htaken
      have hsame : g.build_id = g₀.build_id := (heldBy_iff.mp hheld).2
      have hin : g.build_id ∈ known := by
        by_contra hnew
        exact hfree c g₀ known hc hphase g hg hheld ⟨hnew, hbuild ▸ hlive, hexpired⟩
      have hcold := hlooked.rest (hsame ▸ hin)
      rw [← hsame, hbuild, hlive] at hcold
      cases hcold
    rw [hnot]
    exact ⟨rfl, hbuild⟩

theorem liveKept_iff (hstore : s.StoreInv pipeline) (h : s.LiveInv opts)
    (hs : s.act opts pipeline a = .ok s') : LiveKept opts s a s' ↔ NotOvertaken opts s a := by
  cases a with
  | claim i nowMs =>
    simp only [GraphCluster.act] at hs
    split at hs
    · rename_i b hb
      simp only [GraphCluster.buildStep] at hs
      split at hs
      · rename_i known liveHere hphase
        cases hs
        exact liveKept_claim hstore h hb hphase rfl
      · cases hs
    · cases hs
  | release i nowMs =>
    simp only [GraphCluster.act] at hs
    split at hs
    · rename_i c hc
      simp only [GraphCluster.callStep] at hs
      split at hs
      · rename_i g₀ known hphase
        cases hs
        exact liveKept_release hstore h hc hphase rfl
      · cases hs
    · cases hs
  | _ => exact ⟨fun _ => trivial, nofun⟩

theorem storeInv_reachable (h : (system opts pipeline).Reachable s) : s.StoreInv pipeline := by
  refine h.invariant (fun s hinit => ?_) fun s a s' _ hinv hs => hinv.act hs
  obtain ⟨hgraphs, hrows, -, -, hready, -⟩ := hinit
  refine ⟨by simp [hgraphs], by simp [hgraphs], by simp [hready], fun id => ?_⟩
  simp [StoredLast, lastReady, hready, hrows, hgraphs, rowsOf]

theorem liveInv_reachable (h : (system opts pipeline).Reachable s) : s.LiveInv opts := by
  refine h.invariant (fun s hinit => ?_) fun s a s' _ hinv hs => hinv.act hs
  obtain ⟨-, -, hcalls, hbuilds, -, hlive⟩ := hinit
  refine ⟨by simp [hbuilds], by simp [hbuilds], fun k id => ?_, by simp [hbuilds],
    by simp [hbuilds], by simp [hcalls]⟩
  simp [InsertMap.get, hlive, hbuilds]

/-- In every run, a graph is replaced only by the build that holds it, a build that has lost its
    graph changes nothing, and the stored rows are those of the last committed build. A release or
    a claim leaves a build that its server runs in place, unless that build began after the server
    had looked and its lease has run out. -/
theorem graph_builds_fenced {s₀ : GraphCluster χ ν} {as : List (LifecycleStep χ)}
    (h₀ : (system opts pipeline).init s₀) (hp : (system opts pipeline).Path s₀ as s)
    (hs : (system opts pipeline).step s a s') :
    (∀ id, s'.StoredLast pipeline id) ∧ s.Fenced a s' ∧ s.LostQuiet a s' ∧
      (∀ (i j : Nat) (b b' : GraphBuild χ), s'.builds[i]? = some b → s'.builds[j]? = some b' →
        b.buildId = b'.buildId → i = j) ∧
      (s.LiveKept opts a s' ↔ s.NotOvertaken opts a) := by
  have hreach : (system opts pipeline).Reachable s := (Transition.Reachable.init h₀).path hp
  have hreach' : (system opts pipeline).Reachable s' := .step hreach hs
  exact ⟨(storeInv_reachable hreach').stored, fenced_act hs, lostQuiet_act hs,
    (liveInv_reachable hreach').unique,
    liveKept_iff (storeInv_reachable hreach) (liveInv_reachable hreach) hs⟩

/-! ### Runs -/

/-- One row for each fact. -/
def plainPipeline : GraphPipeline (List Nat) Nat where
  persist _ x := { rows := x.facts, nodesInserted := x.facts.length, edgesInserted := 0 }
  resolve _ _ rows := { rows, edgesInserted := 0 }

def firstBuild : List (LifecycleStep (List Nat)) :=
  [.provision 0 ⟨"account", "project", ""⟩, .insert 0 "graph" "build-0" 0, .kickOff 0, .acquire 0,
    .renew 0 1, .extract 0 ⟨"c0", 2, 0, [7, 8]⟩, .renew 0 2, .startReplace 0]

/-- The first build of a project stores its rows. -/
theorem graph_builds_fenced_firstBuild :
    ∃ s s' : GraphCluster (List Nat) Nat,
      (system {} plainPipeline).Path {} firstBuild s ∧
      (system {} plainPipeline).step s (.replace 0 3) s' ∧
      ((∀ id, s'.StoredLast plainPipeline id) ∧ s.Fenced (.replace 0 3) s' ∧
        s.LostQuiet (.replace 0 3) s' ∧
        (∀ (i j : Nat) (b b' : GraphBuild (List Nat)), s'.builds[i]? = some b →
          s'.builds[j]? = some b' → b.buildId = b'.buildId → i = j) ∧
        (s.LiveKept {} (.replace 0 3) s' ↔ s.NotOvertaken {} (.replace 0 3))) := by
  obtain ⟨s, hp, hnext⟩ := Transition.exists_path_of_run
    (M := system {} plainPipeline) (fun _ _ _ h => h) {} firstBuild
    (fun s => (s.act {} plainPipeline (.replace 0 3)).isOk) (by decide +kernel)
  cases hs : s.act {} plainPipeline (.replace 0 3) with
  | error e =>
    rw [hs] at hnext
    cases hnext
  | ok s' =>
    have h₀ : (system {} plainPipeline).init {} := ⟨rfl, rfl, rfl, rfl, rfl, fun _ => rfl⟩
    exact ⟨s, s', hp, hs, graph_builds_fenced h₀ hp hs⟩

/-- A check that a step takes a graph from a live build. -/
def takesLive (opts : LifecycleOptions) (s : GraphCluster χ ν) (a : LifecycleStep χ)
    (s' : GraphCluster χ ν) : Bool :=
  match s.taker a with
  | none => false
  | some k => s.builds.any fun b =>
      b.server = k && b.phase.running && (s.server k).isLiveHere opts b.buildId &&
        s.graphs.any fun g => g.build_id = b.buildId &&
          s'.graphs.all fun g' => g'.id ≠ g.id || g'.build_id ≠ b.buildId

theorem not_liveKept (h : takesLive opts s a s' = true) : ¬s.LiveKept opts a s' := by
  intro hkept
  unfold takesLive at h
  split at h
  · cases h
  · rename_i k hk
    simp only [List.any_eq_true, Bool.and_eq_true, decide_eq_true_eq, List.all_eq_true] at h
    obtain ⟨b, hb, ⟨⟨hserver, hrunning⟩, hlive⟩, g, hg, hbuild, hgone⟩ := h
    obtain ⟨g', hg', hid, hbuild'⟩ := hkept k hk b hb hserver hrunning hlive g hg hbuild
    simpa [hid, hbuild'] using hgone g' hg'

/-- Two refreshes of one graph on one server: the second one looks before the build of the first
    one is kicked off, and its statement waits for longer than a lease. -/
def twoRefreshes : List (LifecycleStep (List Nat)) :=
  [.provision 0 ⟨"account", "project", ""⟩, .insert 0 "graph" "build-0" 0, .kickOff 0, .acquire 0,
    .throws 0 "clone failed", .failBuild 0, .finish 0,
    .rebuild 0 "graph" "account" "build-1", .rebuild 0 "graph" "account" "build-2",
    .claim 1 1000, .kickOff 1, .acquire 1]

/-- The claim of the second refresh takes the row over although the build of the first one runs. -/
theorem not_always_liveKept :
    ¬∀ (s s' : GraphCluster (List Nat) Nat) (as : List (LifecycleStep (List Nat)))
      (a : LifecycleStep (List Nat)), (system {} plainPipeline).Path {} as s →
      (system {} plainPipeline).step s a s' → s.LiveKept {} a s' := by
  intro hall
  obtain ⟨s, hp, hnext⟩ := Transition.exists_path_of_run
    (M := system {} plainPipeline) (fun _ _ _ h => h) {} twoRefreshes
    (fun s => (s.act {} plainPipeline (.claim 2 200000)).toOption.any
      (takesLive {} s (.claim 2 200000))) (by decide +kernel)
  obtain ⟨s', hs, htakes⟩ := (Option.any_eq_true _ _).mp hnext
  exact not_liveKept htakes (hall s s' _ _ hp (except_toOption_eq_some.mp hs))

end GraphCluster

end WorkflowBoard.Ontology
