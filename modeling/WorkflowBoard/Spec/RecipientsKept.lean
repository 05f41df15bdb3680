import WorkflowBoard.ForStd.List
import WorkflowBoard.Native.PostQueue

/-!
# Recipients of a post that is mailed

A post is published by whoever finds no open row, so no row may be missing at that moment.
-/

namespace WorkflowBoard.PostQueue

open Email (PostStatus SendStatus cached)

/-! ## Posts that are done -/

/-- Nothing is left to insert. -/
def EnqueueCall.isDone (c : EnqueueCall) : Bool :=
  match c.phase with
  | .eligible => false
  | .inserting rest | .failing rest => rest.isEmpty
  | .auditing | .marking | .ended => true

/-- Each recipient of the post has its row, and it is sent, failed or suppressed. -/
def AllDone (s : PostState) (post : Nat) : Prop :=
  (∀ r ∈ s.sends, r.post_id = post → r.isOpen = false) ∧
    ∀ c ∈ s.enqueues, c.post = post → c.isDone = true

/-- The post has been approved or rejected. -/
def Decided (s : PostState) (post : Nat) : Prop :=
  ∃ status, s.posts[post]? = some status ∧ status ≠ .draft

/-- The row that a pass is at. -/
def PassCall.row? (p : PassCall) : Option Nat :=
  match p.phase with
  | .gating place _ | .checked place _ | .writing place _ _ => some place
  | _ => none

/-- The posts a pass counts the rows of, or will. -/
def PassCall.listed (p : PassCall) : List Nat :=
  match p.phase with
  | .counting touched => touched
  | .reading post touched | .marking post touched => post :: touched
  | _ => []

/-- The post whose rows it has counted, none of them open. -/
def PassCall.counted (p : PassCall) : Option Nat :=
  match p.phase with
  | .reading post _ | .marking post _ => some post
  | _ => none

/-- Rows of a post are counted as done only when `enqueue` is through with them, and no row is
    closed as interrupted that a pass is still at. -/
def PostState.timely (s : PostState) (a : PostAction) : Bool :=
  match a with
  | .next k =>
      match s.passes[k]? with
      | some { postCache := _, touched := _, phase := .closing (place :: _) } =>
          s.passes.all (·.row? ≠ some place)
      | some { postCache := _, touched := _, phase := .counting (post :: _) } =>
          s.openCount post ≠ 0 || s.enqueues.all fun c => c.post ≠ post || c.isDone
      | _ => true
  | _ => true

/-! ## The invariant -/

structure PassOk (s : PostState) (p : PassCall) : Prop where
  row : ∀ i, p.row? = some i → ∃ r, s.sends[i]? = some r ∧ r.status = .sending
  touched : ∀ post ∈ p.touched, Decided s post
  listed : ∀ post ∈ p.listed, Decided s post
  counted : ∀ post, p.counted = some post → AllDone s post
  cache : ∀ post : Nat, (post, some PostStatus.published) ∈ p.postCache →
    s.posts[post]? = some .published
  outcome : ∀ i o due, p.phase = .writing i o due →
    o.suppressed ≠ some (.post (some .published))

structure EnqueueOk (s : PostState) (c : EnqueueCall) : Prop where
  post : Decided s c.post
  empty : c.recipients = 0 → ∀ r ∈ s.sends, r.post_id ≠ c.post
  rest : ∀ rest, c.phase = .inserting rest → rest.length ≤ c.recipients
  none : c.phase = .eligible ∨ c.phase = .marking → c.recipients = 0

structure PostInv (s : PostState) : Prop where
  rows : ∀ r ∈ s.sends, Decided s r.post_id
  clean : ∀ r ∈ s.sends, r.suppressed ≠ some (.post (some .published))
  passes : ∀ (k : Nat) (p : PassCall), s.passes[k]? = some p → PassOk s p
  enqueues : ∀ (k : Nat) (c : EnqueueCall), s.enqueues[k]? = some c → EnqueueOk s c
  rowsApart : ∀ (k k' : Nat) (p p' : PassCall) (i : Nat), s.passes[k]? = some p →
    s.passes[k']? = some p' → p.row? = some i → p'.row? = some i → k = k'
  postsApart : ∀ (k k' : Nat) (c c' : EnqueueCall), s.enqueues[k]? = some c →
    s.enqueues[k']? = some c' → c.post = c'.post → k = k'
  published : ∀ post : Nat, s.posts[post]? = some .published → AllDone s post

variable {s s' : PostState} {k place post : Nat}

/-- What later states keep of the posts. -/
structure Later (s s' : PostState) : Prop where
  decided : ∀ post, Decided s post → Decided s' post
  published : ∀ post : Nat, s.posts[post]? = some .published → s'.posts[post]? = some .published
  done : ∀ post, Decided s post → AllDone s post → AllDone s' post

theorem PassOk.later {p : PassCall} (h : PassOk s p) (hl : Later s s')
    (hrow : ∀ i r, p.row? = some i → s.sends[i]? = some r → r.status = .sending →
      ∃ r', s'.sends[i]? = some r' ∧ r'.status = .sending) : PassOk s' p where
  row i hi := by
    obtain ⟨r, hr, hs⟩ := h.row i hi
    exact hrow i r hi hr hs
  touched t ht := hl.decided t (h.touched t ht)
  listed t ht := hl.decided t (h.listed t ht)
  counted t ht := by
    refine hl.done t (h.listed t ?_) (h.counted t ht)
    unfold PassCall.counted at ht
    unfold PassCall.listed
    split at ht <;> simp_all
  cache t ht := hl.published t (h.cache t ht)
  outcome := h.outcome

theorem EnqueueOk.later {c : EnqueueCall} (h : EnqueueOk s c) (hl : Later s s')
    (hempty : c.recipients = 0 → ∀ r ∈ s'.sends, r.post_id ≠ c.post) : EnqueueOk s' c :=
  ⟨hl.decided _ h.post, hempty, h.rest, h.none⟩

namespace PostInv

/-! ## Single writes -/

/-- An open row changes; if a pass is at it, it stays underway. -/
theorem setRow (h : PostInv s) {r r' : Recipient} (hr : s.sends[place]? = some r)
    (hpost : r'.post_id = r.post_id) (hopen : r.isOpen = true)
    (hclean : r'.suppressed ≠ some (.post (some .published)))
    (hrow : ∀ (k : Nat) (p : PassCall), s.passes[k]? = some p → p.row? = some place →
      r'.status = .sending) :
    PostInv (s.setRow place r') := by
  have hmem : ∀ q ∈ (s.setRow place r').sends, ∃ q' ∈ s.sends, q'.post_id = q.post_id := by
    intro q hq
    rcases List.mem_or_eq_of_mem_set hq with hq | rfl
    · exact ⟨q, hq, rfl⟩
    · exact ⟨r, List.mem_of_getElem? hr, hpost.symm⟩
  have hl : Later s (s.setRow place r') := by
    refine ⟨fun _ hd => hd, fun _ hp => hp, fun t _ hdone => ⟨fun q hq hqt => ?_, hdone.2⟩⟩
    rcases List.mem_or_eq_of_mem_set hq with hq | rfl
    · exact hdone.1 q hq hqt
    · have := hdone.1 r (List.mem_of_getElem? hr) (hpost.symm.trans hqt)
      rw [hopen] at this
      cases this
  refine ⟨fun q hq => ?_, fun q hq => ?_, fun j p hj => (h.passes j p hj).later hl ?_,
    fun j c hj => (h.enqueues j c hj).later hl fun hzero q hq => ?_, h.rowsApart, h.postsApart,
    fun t ht => hl.done t ⟨_, ht, nofun⟩ (h.published t ht)⟩
  · obtain ⟨q', hq', hpost'⟩ := hmem q hq
    exact hpost' ▸ h.rows q' hq'
  · rcases List.mem_or_eq_of_mem_set hq with hq | rfl
    · exact h.clean q hq
    · exact hclean
  · intro i q hi hq hs
    by_cases hp : place = i
    · subst hp
      exact ⟨r', getElem?_set_self hr, hrow j p hj hi⟩
    · exact ⟨q, (List.getElem?_set_ne hp).trans hq, hs⟩
  · obtain ⟨q', hq', hpost'⟩ := hmem q hq
    exact hpost' ▸ (h.enqueues j c hj).empty hzero q' hq'

theorem keepPasses (h : PostInv s) (hl : Later s s') (hsends : s'.sends = s.sends) (j : Nat)
    (p : PassCall) (hj : s.passes[j]? = some p) : PassOk s' p :=
  (h.passes j p hj).later hl fun _ r _ hr hs => ⟨r, hsends ▸ hr, hs⟩

theorem keepEnqueues (h : PostInv s) (hl : Later s s') (hsends : s'.sends = s.sends) (j : Nat)
    (c : EnqueueCall) (hj : s.enqueues[j]? = some c) : EnqueueOk s' c :=
  (h.enqueues j c hj).later hl (hsends ▸ (h.enqueues j c hj).empty)

theorem later_setPass (s : PostState) (k : Nat) (p : PassCall) : Later s (s.setPass k p) :=
  ⟨fun _ hd => hd, fun _ hp => hp, fun _ _ hdone => hdone⟩

/-- A pass goes on, at the row it was at or at one that no other is at. -/
theorem setPass (h : PostInv s) {p p' : PassCall} (hk : s.passes[k]? = some p) (hok : PassOk s p')
    (hrow : ∀ i, p'.row? = some i → p.row? = some i ∨
      ∀ (j : Nat) (q : PassCall), s.passes[j]? = some q → q.row? ≠ some i) :
    PostInv (s.setPass k p') := by
  have hl := later_setPass s k p'
  refine ⟨h.rows, h.clean, fun j q hj => ?_, h.keepEnqueues hl rfl,
    KeysApart.set h.rowsApart hk hrow, h.postsApart, h.published⟩
  rcases getElem?_set_cases hj with ⟨rfl, rfl⟩ | ⟨-, hj⟩
  · exact hok.later hl fun i r _ hr hs => ⟨r, hr, hs⟩
  · exact h.keepPasses hl rfl j q hj

/-- A call of `enqueue` goes on; what is through stays so. -/
theorem setEnqueue (h : PostInv s) {c c' : EnqueueCall} (hk : s.enqueues[k]? = some c)
    (hpost : c'.post = c.post) (hok : EnqueueOk s c') (hdone : c.isDone = true → c'.isDone = true) :
    PostInv (s.setEnqueue k c') := by
  have hl : Later s (s.setEnqueue k c') := by
    refine ⟨fun _ hd => hd, fun _ hp => hp, fun t _ hall => ⟨hall.1, fun d hd hdt => ?_⟩⟩
    rcases List.mem_or_eq_of_mem_set hd with hd | rfl
    · exact hall.2 d hd hdt
    · exact hdone (hall.2 c (List.mem_of_getElem? hk) (hpost.symm.trans hdt))
  refine ⟨h.rows, h.clean, h.keepPasses hl rfl,
    fun j d hj => ?_, h.rowsApart, fun j j' d d' hj hj' hp => ?_,
    fun t ht => hl.done t ⟨_, ht, nofun⟩ (h.published t ht)⟩
  · rcases getElem?_set_cases hj with ⟨rfl, rfl⟩ | ⟨-, hj⟩
    · exact hok.later hl hok.empty
    · exact h.keepEnqueues hl rfl j d hj
  · rcases getElem?_set_cases hj with ⟨rfl, rfl⟩ | ⟨-, hold⟩
    · rcases getElem?_set_cases hj' with ⟨rfl, rfl⟩ | ⟨-, hold'⟩
      · rfl
      · exact h.postsApart _ _ c d' hk hold' (hpost.symm.trans hp)
    · rcases getElem?_set_cases hj' with ⟨rfl, rfl⟩ | ⟨-, hold'⟩
      · exact h.postsApart _ _ d c hold hk (hp.trans hpost)
      · exact h.postsApart j j' d d' hold hold' hp

/-- A post that is being sent, or a draft, moves on; it is published only when all is done. -/
theorem movePost (h : PostInv s) {before after : PostStatus} (hbefore : before ≠ .published)
    (hafter : after ≠ .draft) (hdone : after = .published → AllDone s post) :
    PostInv (s.movePost post before after) := by
  unfold PostState.movePost
  split
  next hin =>
    have hset : ∀ t status, (s.posts.set post after)[t]? = some status →
        (t = post ∧ status = after) ∨ s.posts[t]? = some status := fun t status ht => by
      rcases getElem?_set_cases ht with ⟨rfl, rfl⟩ | ⟨-, ht⟩
      · exact .inl ⟨rfl, rfl⟩
      · exact .inr ht
    have hself : (s.posts.set post after)[post]? = some after :=
      getElem?_set_self hin
    have hl : Later s { s with posts := s.posts.set post after } := by
      refine ⟨fun t ⟨status, ht, hs⟩ => ?_, fun t ht => ?_, fun _ _ hall => hall⟩
      · by_cases hp : post = t
        · exact ⟨after, hp ▸ hself, hafter⟩
        · exact ⟨status, (List.getElem?_set_ne hp).trans ht, hs⟩
      · by_cases hp : post = t
        · subst hp
          exact absurd (Option.some.inj (hin.symm.trans ht)) hbefore
        · exact (List.getElem?_set_ne hp).trans ht
    refine ⟨fun r hr => hl.decided _ (h.rows r hr), h.clean,
      h.keepPasses hl rfl,
      h.keepEnqueues hl rfl, h.rowsApart,
      h.postsApart, fun t ht => ?_⟩
    rcases hset t _ ht with ⟨rfl, hpub⟩ | ht
    · exact hdone hpub.symm
    · exact h.published t ht
  next => exact h

/-! ## Steps of a post and its approval -/

theorem create (h : PostInv s) : PostInv { s with posts := s.posts ++ [.draft] } := by
  have hkept : ∀ (t : Nat) (status : PostStatus), s.posts[t]? = some status →
      (s.posts ++ [.draft])[t]? = some status := fun t status ht => getElem?_append_of_some ht _
  have hl : Later s { s with posts := s.posts ++ [.draft] } :=
    ⟨fun t ⟨status, ht, hs⟩ => ⟨status, hkept t status ht, hs⟩, fun t ht => hkept t _ ht,
      fun _ _ hall => hall⟩
  refine ⟨fun r hr => hl.decided _ (h.rows r hr), h.clean,
    h.keepPasses hl rfl,
    h.keepEnqueues hl rfl, h.rowsApart,
    h.postsApart, fun t ht => ?_⟩
  rcases getElem?_append_cases ht with ht | ⟨-, ht⟩
  · exact h.published t ht
  · cases ht

/-- A draft is approved; it has no rows yet, and no other call of `enqueue`. -/
theorem approve (h : PostInv s) (hin : s.posts[post]? = some .draft) :
    PostInv { s.movePost post .draft .sending with enqueues := s.enqueues ++ [{ post }] } := by
  have hne : ∀ t, Decided s t → t ≠ post := fun t ⟨status, ht, hs⟩ htp => by
    subst htp
    exact hs (Option.some.inj (ht.symm.trans hin))
  have hself : (s.posts.set post .sending)[post]? = some .sending :=
    getElem?_set_self hin
  rw [PostState.movePost, if_pos hin]
  have hl : Later s { s with
      posts := s.posts.set post .sending, enqueues := s.enqueues ++ [{ post }] } := by
    refine ⟨fun t ht => ?_, fun t ht => ?_, fun t ht hall => ⟨hall.1, fun c hc hct => ?_⟩⟩
    · obtain ⟨status, ht', hs⟩ := ht
      exact ⟨status, (List.getElem?_set_ne fun hp => hne t ⟨status, ht', hs⟩ hp.symm).trans ht', hs⟩
    · exact (List.getElem?_set_ne fun hp => hne t ⟨_, ht, nofun⟩ hp.symm).trans ht
    · rcases List.mem_append.mp hc with hc | hc
      · exact hall.2 c hc hct
      · obtain rfl := List.mem_singleton.mp hc
        exact absurd hct.symm (hne t ht)
  refine ⟨fun r hr => hl.decided _ (h.rows r hr), h.clean,
    h.keepPasses hl rfl, fun j c hj => ?_,
    h.rowsApart, fun j j' c c' hj hj' hp => ?_, fun t ht => ?_⟩
  · rcases getElem?_append_cases hj with hj | ⟨-, rfl⟩
    · exact h.keepEnqueues hl rfl j c hj
    · exact ⟨⟨_, hself, nofun⟩, fun _ r hr => hne _ (h.rows r hr), nofun, fun _ => rfl⟩
  · have hold : ∀ (i : Nat) (d : EnqueueCall), s.enqueues[i]? = some d → d.post ≠ post :=
      fun i d hi => hne _ (h.enqueues i d hi).post
    rcases getElem?_append_cases hj with hj | ⟨hlen, rfl⟩
    · rcases getElem?_append_cases hj' with hj' | ⟨-, rfl⟩
      · exact h.postsApart j j' c c' hj hj' hp
      · exact absurd hp (hold j c hj)
    · rcases getElem?_append_cases hj' with hj' | ⟨hlen', -⟩
      · exact absurd hp.symm (hold j' c' hj')
      · exact hlen.trans hlen'.symm
  · rcases getElem?_set_cases ht with ⟨-, ht⟩ | ⟨-, ht⟩
    · cases ht
    · exact hl.done t ⟨_, ht, nofun⟩ (h.published t ht)

variable {c : EnqueueCall} {p : PassCall}

section

variable (h : PostInv s)
include h

section

variable (hk : s.enqueues[k]? = some c)
include hk

theorem eligible (hc : c.phase = .eligible) (contacts : List Nat) :
    PostInv (s.setEnqueue k
      { c with recipients := contacts.length, phase := .inserting contacts }) := by
  have hok := h.enqueues k c hk
  refine h.setEnqueue hk rfl ⟨hok.post, fun _ => hok.empty (hok.none (.inl hc)),
    fun rest hrest => ?_, fun hp => by rcases hp with hp | hp <;> cases hp⟩ fun hdone => ?_
  · cases hrest
    exact Nat.le_refl _
  · rw [EnqueueCall.isDone, hc] at hdone
    cases hdone

theorem insertChunk {a : Nat}
    {rest : List Nat} (hc : c.phase = .inserting (a :: rest)) (chunk left : List Nat)
    (hleft : left.length ≤ (a :: rest).length) :
    PostInv ({ s with
      sends := s.sends ++ chunk.map fun contact =>
        ({ post_id := c.post, contact_id := contact } : Recipient) }.setEnqueue k
          { c with phase := .inserting left }) := by
  have hok := h.enqueues k c hk
  have hopen : c.isDone = false := by
    rw [EnqueueCall.isDone, hc]
    rfl
  have hnew : ∀ r ∈ chunk.map fun contact =>
      ({ post_id := c.post, contact_id := contact } : Recipient),
      r.post_id = c.post ∧ r.suppressed = none := fun r hr => by
    obtain ⟨contact, -, rfl⟩ := List.mem_map.mp hr
    exact ⟨rfl, rfl⟩
  have hl : Later s ({ s with
      sends := s.sends ++ chunk.map fun contact =>
        ({ post_id := c.post, contact_id := contact } : Recipient) }.setEnqueue k
          { c with phase := .inserting left }) := by
    refine ⟨fun _ hd => hd, fun _ hp => hp, fun t _ hall => ?_⟩
    have hne : t ≠ c.post := fun ht => by
      have := hall.2 c (List.mem_of_getElem? hk) ht.symm
      rw [hopen] at this
      cases this
    refine ⟨fun r hr hrt => ?_, fun d hd hdt => ?_⟩
    · rcases List.mem_append.mp hr with hr | hr
      · exact hall.1 r hr hrt
      · exact absurd (hrt.symm.trans (hnew r hr).1) hne
    · rcases List.mem_or_eq_of_mem_set hd with hd | rfl
      · exact hall.2 d hd hdt
      · exact absurd hdt.symm hne
  refine ⟨fun r hr => ?_, fun r hr => ?_, fun j p hj => (h.passes j p hj).later hl
      fun i r _ hr hs => ⟨r, ?_, hs⟩, fun j d hj => ?_, h.rowsApart, fun j j' d d' hj hj' hp => ?_,
    fun t ht => hl.done t ⟨_, ht, nofun⟩ (h.published t ht)⟩
  · rcases List.mem_append.mp hr with hr | hr
    · exact h.rows r hr
    · exact (hnew r hr).1 ▸ hok.post
  · rcases List.mem_append.mp hr with hr | hr
    · exact h.clean r hr
    · rw [(hnew r hr).2]
      exact nofun
  · exact (List.getElem?_append_left (lt_of_getElem? hr)).trans hr
  · rcases getElem?_set_cases hj with ⟨rfl, rfl⟩ | ⟨hne, hj⟩
    · have hrest := hok.rest _ hc
      refine ⟨hok.post, fun hzero => ?_, fun rest' hrest' => ?_, fun hp => ?_⟩
      · dsimp only at hzero
        rw [hzero] at hrest
        exact absurd hrest (Nat.not_succ_le_zero _)
      · cases hrest'
        exact hleft.trans hrest
      · rcases hp with hp | hp <;> cases hp
    · refine (h.enqueues j d hj).later hl fun hzero r hr => ?_
      rcases List.mem_append.mp hr with hr | hr
      · exact (h.enqueues j d hj).empty hzero r hr
      · rw [(hnew r hr).1]
        exact fun hp => hne (h.postsApart k j c d hk hj hp)
  · rcases getElem?_set_cases hj with ⟨rfl, rfl⟩ | ⟨-, hold⟩
    · rcases getElem?_set_cases hj' with ⟨rfl, rfl⟩ | ⟨-, hold'⟩
      · rfl
      · exact h.postsApart _ _ c d' hk hold' hp
    · rcases getElem?_set_cases hj' with ⟨rfl, rfl⟩ | ⟨-, hold'⟩
      · exact h.postsApart _ _ d c hold hk hp
      · exact h.postsApart j j' d d' hold hold' hp

/-- With no recipients there is nothing to wait for. -/
theorem allDone_of_marking (hc : c.phase = .marking) : AllDone s c.post := by
  have hok := h.enqueues k c hk
  refine ⟨fun r hr hp => absurd hp (hok.empty (hok.none (.inr hc)) r hr), fun d hd hp => ?_⟩
  obtain ⟨j, hj⟩ := List.getElem?_of_mem hd
  obtain rfl := h.postsApart j k d c hj hk hp
  cases hj.symm.trans hk
  rw [EnqueueCall.isDone, hc]

theorem enqueueStep (hstep : s.enqueueStep k c = some s') : PostInv s' := by
  have hok := h.enqueues k c hk
  have hended : ∀ phase : EnqueuePhase, (∀ rest, phase ≠ .inserting rest) → phase ≠ .eligible →
      (phase = .marking → c.recipients = 0) → EnqueueOk s { c with phase } :=
    fun phase hins helig hmark => ⟨hok.post, hok.empty, fun rest hr => absurd hr (hins rest),
      fun hp => hp.elim (fun hp => absurd hp helig) hmark⟩
  unfold PostState.enqueueStep at hstep
  split at hstep
  next hc =>
    cases hstep
    exact h.setEnqueue hk rfl (hended _ nofun nofun nofun) fun _ => rfl
  next rest hne hc =>
    cases hstep
    cases rest with
    | nil => exact absurd rfl hne
    | cons a rest =>
      refine h.insertChunk hk hc _ _ ?_
      rw [List.length_drop]
      exact Nat.sub_le _ _
  next hc =>
    cases hstep
    by_cases hzero : c.recipients = 0
    · rw [if_pos hzero]
      exact h.setEnqueue hk rfl (hended _ nofun nofun fun _ => hzero) fun _ => rfl
    · rw [if_neg hzero]
      exact h.setEnqueue hk rfl (hended _ nofun nofun nofun) fun _ => rfl
  next hc =>
    cases hstep
    have hm : PostInv (s.movePost c.post .sending .published) :=
      h.movePost nofun nofun fun _ => h.allDone_of_marking hk hc
    have hk' : (s.movePost c.post .sending .published).enqueues[k]? = some c := by
      unfold PostState.movePost
      split <;> exact hk
    have hok' := hm.enqueues k c hk'
    exact hm.setEnqueue hk' rfl ⟨hok'.post, hok'.empty, nofun, fun hp => hp.elim nofun nofun⟩
      fun _ => rfl
  next hc =>
    cases hstep
    have hm : PostInv (s.movePost c.post .sending .failed) := h.movePost nofun nofun nofun
    have hk' : (s.movePost c.post .sending .failed).enqueues[k]? = some c := by
      unfold PostState.movePost
      split <;> exact hk
    have hok' := hm.enqueues k c hk'
    exact hm.setEnqueue hk' rfl ⟨hok'.post, hok'.empty, nofun, fun hp => hp.elim nofun nofun⟩
      fun _ => rfl
  next => cases hstep
  next => cases hstep

theorem enqueueThrow (hstep : s.enqueueThrow k c = some s') : PostInv s' := by
  have hok := h.enqueues k c hk
  have hfailing : ∀ rest, EnqueueOk s { c with phase := .failing rest } := fun rest =>
    ⟨hok.post, hok.empty, nofun, fun hp => hp.elim nofun nofun⟩
  unfold PostState.enqueueThrow at hstep
  split at hstep
  next =>
    cases hstep
    exact h.setEnqueue hk rfl (hfailing []) fun _ => rfl
  next =>
    cases hstep
    exact h.setEnqueue hk rfl (hfailing []) fun _ => rfl
  next =>
    cases hstep
    exact h.setEnqueue hk rfl (hfailing []) fun _ => rfl
  next rest hc =>
    cases hstep
    refine h.setEnqueue hk rfl (hfailing rest) fun hdone => ?_
    rwa [EnqueueCall.isDone, hc] at hdone
  next => cases hstep
  next => cases hstep

end

/-! ## Steps of a pass -/

theorem begin (stuck : List Nat) :
    PostInv { s with passes := s.passes ++ [{ phase := .closing stuck }] } := by
  have hl : Later s { s with passes := s.passes ++ [{ phase := .closing stuck }] } :=
    ⟨fun _ hd => hd, fun _ hp => hp, fun _ _ hall => hall⟩
  refine ⟨h.rows, h.clean, fun j p hj => ?_,
    h.keepEnqueues hl rfl,
    fun j j' p p' i hj hj' hi hi' => ?_, h.postsApart, h.published⟩
  · rcases getElem?_append_cases hj with hj | ⟨-, rfl⟩
    · exact h.keepPasses hl rfl j p hj
    · exact ⟨nofun, nofun, nofun, nofun, nofun, nofun⟩
  · rcases getElem?_append_cases hj with hj | ⟨-, rfl⟩
    · rcases getElem?_append_cases hj' with hj' | ⟨-, rfl⟩
      · exact h.rowsApart j j' p p' i hj hj' hi hi'
      · cases hi'
    · cases hi

section

variable (hk : s.passes[k]? = some p)
include hk

/-- A pass that goes on without a row, without counting and with the posts it knows. -/
theorem idle {phase : PassPhase} (hrow : ({ p with phase } : PassCall).row? = none)
    (hlisted : ∀ t ∈ ({ p with phase } : PassCall).listed, Decided s t)
    (hcounted : ({ p with phase } : PassCall).counted = none) :
    PostInv (s.setPass k { p with phase }) := by
  have hok := h.passes k p hk
  refine h.setPass hk ⟨fun i hi => ?_, hok.touched, hlisted, fun t ht => ?_, hok.cache,
    fun i o due hp => ?_⟩ fun i hi => ?_
  · rw [hrow] at hi
    cases hi
  · rw [hcounted] at ht
    cases ht
  · dsimp only at hp
    subst hp
    cases hrow
  · rw [hrow] at hi
    cases hi

theorem stay {phase : PassPhase} {cache : List (Nat × Option PostStatus)}
    (hrow : p.row? = some place) (hrow' : ({ p with phase } : PassCall).row? = some place)
    (hlisted : ({ p with phase } : PassCall).listed = [])
    (hcounted : ({ p with phase } : PassCall).counted = none)
    (hcache : ∀ t : Nat, (t, some PostStatus.published) ∈ cache → s.posts[t]? = some .published)
    (houtcome : ∀ i o due, phase = .writing i o due →
      o.suppressed ≠ some (.post (some .published))) :
    PostInv (s.setPass k { p with postCache := cache, phase }) := by
  have hok := h.passes k p hk
  refine h.setPass hk ⟨fun i hi => ?_, hok.touched, fun t ht => ?_, fun t ht => ?_, hcache,
    houtcome⟩ fun i hi => ?_
  · cases hrow'.symm.trans hi
    exact hok.row _ hrow
  · exact absurd (hlisted ▸ ht) (List.not_mem_nil)
  · cases hcounted.symm.trans ht
  · cases hrow'.symm.trans hi
    exact .inl hrow

theorem claim {r : Recipient}
    (hr : s.sends[place]? = some r) (hw : r.status.isWaiting = true) (due : List Nat) :
    PostInv ((s.setRow place { r with status := .sending }).setPass k
      { p with touched := PassCall.touch p r.post_id, phase := .gating place due }) := by
  have hrow : PostInv (s.setRow place { r with status := .sending }) :=
    h.setRow hr rfl (by rw [Recipient.isOpen, hw]; rfl) (h.clean r (List.mem_of_getElem? hr))
      fun _ _ _ _ => rfl
  have hok := hrow.passes k p hk
  refine hrow.setPass hk ⟨fun i hi => ?_, fun t ht => ?_, nofun, nofun, hok.cache, nofun⟩
    fun i hi => .inr fun j q hj hq => ?_
  · cases hi
    exact ⟨_, getElem?_set_self hr, rfl⟩
  · have hpost : Decided s r.post_id := h.rows r (List.mem_of_getElem? hr)
    unfold PassCall.touch at ht
    split at ht
    next => exact hok.touched t ht
    next =>
      rcases List.mem_append.mp ht with ht | ht
      · exact hok.touched t ht
      · exact List.mem_singleton.mp ht ▸ hpost
  · -- whoever is at the row has it underway
    cases hi
    obtain ⟨r', hr', hs⟩ := (h.passes j q hj).row _ hq
    cases hr.symm.trans hr'
    rw [hs] at hw
    cases hw

/-- What is known of the post of a row that is underway: it is not published. -/
theorem not_published_of_row
    (hrow : p.row? = some place) {r : Recipient} (hr : s.sends[place]? = some r) :
    s.posts[r.post_id]? ≠ some .published := by
  intro hpub
  obtain ⟨r', hr', hs⟩ := (h.passes k p hk).row place hrow
  cases hr.symm.trans hr'
  have hclosed := (h.published _ hpub).1 r (List.mem_of_getElem? hr) rfl
  rw [Recipient.isOpen, hs] at hclosed
  cases hclosed

end

end

theorem postOf_cache {posts : List PostStatus} (post : Nat)
    (hcache : ∀ t : Nat, (t, some PostStatus.published) ∈ p.postCache →
      posts[t]? = some .published) :
    (∀ t : Nat, (t, some PostStatus.published) ∈ (PassCall.postOf p posts post).2 →
      posts[t]? = some .published) ∧
      ((PassCall.postOf p posts post).1 = some .published → posts[post]? = some .published) := by
  unfold PassCall.postOf cached
  split
  next entry hfound =>
    have hkey := List.find?_some hfound
    have hkey : entry.1 = post := of_decide_eq_true hkey
    refine ⟨hcache, fun hpub => hcache post ?_⟩
    rw [← hkey, ← hpub]
    exact List.mem_of_find?_eq_some hfound
  next =>
    refine ⟨fun t ht => ?_, fun hpub => hpub⟩
    rcases List.mem_cons.mp ht with ht | ht
    · obtain ⟨rfl, hpub⟩ := Prod.mk.inj ht
      exact hpub.symm
    · exact hcache t ht

/-- No open row is counted, and `enqueue` is through with the post. -/
theorem allDone_of_openCount (hcount : s.openCount post = 0)
    (hdone : ∀ c ∈ s.enqueues, c.post ≠ post ∨ c.isDone = true) : AllDone s post := by
  refine ⟨fun r hr hp => ?_, fun c hc hp => (hdone c hc).resolve_left fun hne => hne hp⟩
  have := List.countP_eq_zero.mp hcount r hr
  simpa [hp] using this

theorem passNext (h : PostInv s) (hk : s.passes[k]? = some p)
    (hright : s.timely (.next k) = true) (hstep : s.passNext k p = some s') : PostInv s' := by
  obtain ⟨cache, touched, phase⟩ := p
  have hok := h.passes k _ hk
  unfold PostState.passNext at hstep
  cases phase with
  | closing stuck =>
    cases stuck with
    | nil =>
      cases hstep
      exact h.idle hk rfl nofun rfl
    | cons place stuck =>
      have hidle : PostInv (s.setPass k ⟨cache, touched, .closing stuck⟩) := h.idle hk rfl nofun rfl
      dsimp only at hstep
      split at hstep
      next r hr =>
        split at hstep
        next hs =>
          cases hstep
          refine hidle.setRow hr rfl ?_ (h.clean r (List.mem_of_getElem? hr)) fun j q hj hq => ?_
          · simp [Recipient.isOpen, hs]
          · -- no pass is at the row, by right
            simp only [PostState.timely, hk, List.all_eq_true, decide_eq_true_eq] at hright
            rcases getElem?_set_cases hj with ⟨-, rfl⟩ | ⟨-, hold⟩
            · cases hq
            · exact absurd hq (hright q (List.mem_of_getElem? hold))
        next =>
          cases hstep
          exact hidle
      next =>
        cases hstep
        exact hidle
  | claiming due =>
    cases due with
    | nil =>
      cases hstep
      exact h.idle hk rfl hok.touched rfl
    | cons place due =>
      dsimp only at hstep
      split at hstep
      next r hr =>
        split at hstep
        next hw =>
          cases hstep
          exact h.claim hk hr hw due
        next =>
          cases hstep
          exact h.idle hk rfl nofun rfl
      next =>
        cases hstep
        exact h.idle hk rfl nofun rfl
  | gating place due =>
    dsimp only at hstep
    split at hstep
    next r hr =>
      cases hstep
      obtain ⟨hcache, hread⟩ := postOf_cache r.post_id hok.cache
      have hnot := h.not_published_of_row hk rfl hr
      by_cases hs : (PassCall.postOf ⟨cache, touched, .gating place due⟩ s.posts r.post_id).1 =
          some .sending
      · rw [if_pos hs]
        exact h.stay hk rfl rfl rfl rfl hcache nofun
      · rw [if_neg hs]
        refine h.stay hk rfl rfl rfl rfl hcache fun i o due' ho => ?_
        cases ho
        intro hpub
        exact hnot (hread (SuppressReason.post.inj (Option.some.inj hpub)))
    next => cases hstep
  | writing place outcome due =>
    dsimp only at hstep
    split at hstep
    next r hr =>
      cases hstep
      have hidle : PostInv (s.setPass k ⟨cache, touched, .claiming due⟩) := h.idle hk rfl nofun rfl
      obtain ⟨r', hr', hs⟩ := hok.row place rfl
      cases hr.symm.trans hr'
      refine hidle.setRow hr rfl (by simp [Recipient.isOpen, hs]) (hok.outcome _ _ _ rfl)
        fun j q hj hq => ?_
      rcases getElem?_set_cases hj with ⟨-, rfl⟩ | ⟨hne, hold⟩
      · cases hq
      · exact absurd (h.rowsApart k j _ q place hk hold rfl hq) hne
    next => cases hstep
  | counting listed =>
    cases listed with
    | nil =>
      cases hstep
      exact h.idle hk rfl nofun rfl
    | cons post listed =>
      cases hstep
      by_cases hcount : s.openCount post = 0
      · rw [if_pos hcount]
        simp only [PostState.timely, hk, hcount, ne_eq, not_true_eq_false, decide_false,
          Bool.false_or, List.all_eq_true, Bool.or_eq_true, decide_eq_true_eq] at hright
        exact h.setPass hk ⟨nofun, hok.touched, hok.listed,
          fun t ht => Option.some.inj ht ▸ allDone_of_openCount hcount hright, hok.cache,
            nofun⟩ nofun
      · rw [if_neg hcount]
        exact h.idle hk rfl (fun t ht => hok.listed t (List.mem_cons_of_mem _ ht)) rfl
  | reading post listed =>
    cases hstep
    by_cases hs : s.posts[post]? = some .sending
    · rw [if_pos hs]
      exact h.setPass hk ⟨nofun, hok.touched, hok.listed, hok.counted, hok.cache, nofun⟩ nofun
    · rw [if_neg hs]
      exact h.idle hk rfl (fun t ht => hok.listed t (List.mem_cons_of_mem _ ht)) rfl
  | marking post listed =>
    cases hstep
    have hm : PostInv (s.movePost post .sending .published) :=
      h.movePost nofun nofun fun _ => hok.counted post rfl
    have hk' : (s.movePost post .sending .published).passes[k]? =
        some ⟨cache, touched, .marking post listed⟩ := by
      unfold PostState.movePost
      split <;> exact hk
    exact hm.idle hk' rfl (fun t ht => (hm.passes k _ hk').listed t (List.mem_cons_of_mem _ ht)) rfl
  | listing => cases hstep
  | checked => cases hstep
  | ended => cases hstep

/-! ## All steps -/

theorem init : PostInv {} where
  rows := fun _ hr => nomatch hr
  clean := fun _ hr => nomatch hr
  passes := fun _ _ hk => nomatch hk
  enqueues := fun _ _ hk => nomatch hk
  rowsApart := fun _ _ _ _ _ hk => nomatch hk
  postsApart := fun _ _ _ _ hk => nomatch hk
  published := fun _ ht => nomatch ht

/-- Each step by right keeps the invariant. -/
theorem step (h : PostInv s) {a : PostAction} (hright : s.timely a = true)
    (hstep : s.step a = some s') : PostInv s' := by
  unfold PostState.step at hstep
  cases a with
  | create =>
    cases hstep
    exact h.create
  | reject post =>
    cases hstep
    exact h.movePost nofun nofun nofun
  | approve post =>
    obtain ⟨hin, ⟨⟩⟩ := Option.ite_none_right_eq_some.mp hstep
    exact h.approve hin
  | eligible k contacts =>
    dsimp only at hstep
    split at hstep
    next c hk =>
      obtain ⟨hc, ⟨⟩⟩ := Option.ite_none_right_eq_some.mp hstep
      exact h.eligible hk hc contacts
    next => cases hstep
  | enqueueNext k =>
    dsimp only at hstep
    split at hstep
    next c hk => exact h.enqueueStep hk hstep
    next => cases hstep
  | enqueueThrows k =>
    dsimp only at hstep
    split at hstep
    next c hk => exact h.enqueueThrow hk hstep
    next => cases hstep
  | begin stuck =>
    obtain ⟨-, ⟨⟩⟩ := Option.ite_none_right_eq_some.mp hstep
    exact h.begin stuck
  | list k due =>
    dsimp only at hstep
    split at hstep
    next p hk =>
      obtain ⟨-, ⟨⟩⟩ := Option.ite_none_right_eq_some.mp hstep
      exact h.idle hk rfl nofun rfl
    next => cases hstep
  | next k =>
    dsimp only at hstep
    split at hstep
    next p hk => exact h.passNext hk hright hstep
    next => cases hstep
  | gate k outcome =>
    dsimp only at hstep
    split at hstep
    next p hk =>
      split at hstep
      next place due hp =>
        obtain ⟨hearly, ⟨⟩⟩ := Option.ite_none_right_eq_some.mp hstep
        refine h.stay hk (by rw [PassCall.row?, hp]) rfl rfl rfl (h.passes k p hk).cache
          fun i o due' ho => ?_
        cases ho
        simp only [Outcome.isEarly, Bool.or_eq_true, decide_eq_true_eq] at hearly
        rcases hearly with (rfl | rfl) | rfl <;> exact nofun
      next => cases hstep
    next => cases hstep
  | finish k outcome =>
    dsimp only at hstep
    split at hstep
    next p hk =>
      split at hstep
      next place due hp =>
        obtain ⟨hlate, ⟨⟩⟩ := Option.ite_none_right_eq_some.mp hstep
        refine h.stay hk (by rw [PassCall.row?, hp]) rfl rfl rfl (h.passes k p hk).cache
          fun i o due' ho => ?_
        cases ho
        simp only [Outcome.isLate, Bool.or_eq_true, decide_eq_true_eq] at hlate
        rcases hlate with (((rfl | rfl) | rfl) | rfl) | rfl <;> exact nofun
      next => cases hstep
    next => cases hstep
  | stop k =>
    dsimp only at hstep
    split at hstep
    next p hk =>
      cases hstep
      exact h.idle hk rfl nofun rfl
    next => cases hstep

end PostInv

/-! ## No recipient is dropped -/

/-- A post is published in full, and no row is suppressed because its post is published. -/
structure RecipientsKept (s : PostState) : Prop where
  published : ∀ post : Nat, s.posts[post]? = some .published → AllDone s post
  clean : ∀ r ∈ s.sends, r.suppressed ≠ some (.post (some .published))

/-- A post is published only in full, and no row is suppressed because its post is published
    already. -/
theorem recipients_kept {s : PostState}
    (h : (postSystem.restrict fun s a _ => s.timely a = true).Reachable s) : RecipientsKept s := by
  have hinv : PostInv s := by
    refine h.invariant (P := PostInv) (fun t ht => ?_) fun t _ t' _ hinv hstep => ?_
    · obtain rfl : t = {} := ht
      exact .init
    · exact hinv.step hstep.2 hstep.1
  exact ⟨hinv.published, hinv.clean⟩

/-- A post is approved for the contacts up to `n`, and the first chunk of them is saved. -/
def approved (n : Nat) : List PostAction :=
  [.create, .approve 0, .eligible 0 (List.range n), .enqueueNext 0]

/-- The `k`-th pass suppresses the rows from `first` on, whose contacts are gone. -/
def passOver (k first n : Nat) : List PostAction :=
  [.begin [], .next k, .list k (List.range' first n)] ++
    (List.range n).flatMap fun _ => [.next k, .gate k ⟨.suppressed, some .contact⟩, .next k]

/-- A pass counts the rows of the post, which are still open or not, and ends. -/
def counted (k : Nat) (isOpen : Bool) : List PostAction :=
  List.replicate (if isOpen then 3 else 5) (.next k)

/-- A post to 201 contacts, saved in two chunks, is published when the last of its rows is done. -/
theorem recipients_kept_twoChunks : ∃ s, s.posts = [.published] ∧ s.sends.length = 201 ∧
    RecipientsKept s := by
  obtain ⟨s, hs, hend⟩ := Transition.exists_reachable_checked (M := postSystem)
    (C := PostState.timely) (fun _ _ _ h => h) rfl
    (approved 201 ++ [.enqueueNext 0, .enqueueNext 0] ++ passOver 0 0 50 ++ counted 0 true ++
      passOver 1 50 50 ++ counted 1 true ++ passOver 2 100 50 ++ counted 2 true ++
      passOver 3 150 50 ++ counted 3 true ++ passOver 4 200 1 ++ counted 4 false)
    (fun s => s.posts = [.published] && s.sends.length = 201) (by decide +kernel)
  rw [Bool.and_eq_true, decide_eq_true_eq, decide_eq_true_eq] at hend
  exact ⟨s, hend.1, hend.2, recipients_kept hs⟩

/-- Four passes are through with the first 200 rows before the last of 201 is saved: its post is
    published by then, and it is suppressed for that. -/
theorem last_chunk_suppressed : ¬ ∀ s, postSystem.Reachable s → RecipientsKept s := by
  intro hall
  obtain ⟨s, hs, hend⟩ := Transition.exists_reachable_checked (M := postSystem)
    (C := fun _ _ => true) (fun _ _ _ h => h) rfl
    (approved 201 ++ passOver 0 0 50 ++ counted 0 true ++ passOver 1 50 50 ++ counted 1 true ++
      passOver 2 100 50 ++ counted 2 true ++ passOver 3 150 50 ++ counted 3 false ++
      [.enqueueNext 0, .begin [], .next 4, .list 4 [200], .next 4, .next 4, .next 4])
    (fun s => s.sends.any (·.suppressed = some (.post (some .published)))) (by decide +kernel)
  obtain ⟨r, hr, hsup⟩ := List.any_eq_true.mp hend
  exact (hall s hs.of_restrict).clean r hr (of_decide_eq_true hsup)

end WorkflowBoard.PostQueue
