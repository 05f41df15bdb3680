import WorkflowBoard.ForStd.List
import WorkflowBoard.ForStd.Paging
import WorkflowBoard.Native.History

/-!
# Paging back through a history

The cursor compares `created_at` and `id` with those of the oldest row of the page before, whose
`created_at` has lost what is finer than a millisecond. Messages are ordered by `created_at` alone.
On sql.js the oldest row of a page is before itself, so paging does not get past it.
-/

namespace WorkflowBoard.History

open Budget (SqlStore createdAt)

/-- `ORDER BY created_at DESC` lets the first row stand before the second. -/
def ChatRoomMessage.NotOlder (store : SqlStore) (a b : ChatRoomMessage) : Prop :=
  b.created_at store ≤ a.created_at store

/-- `ORDER BY created_at DESC, id DESC` lets the first row stand before the second. -/
def Comment.NotOlder (store : SqlStore) (a b : Comment) : Prop :=
  b.created_at store < a.created_at store ∨ b.created_at store = a.created_at store ∧ b.id ≤ a.id

/-- What a query may answer to the cursor, newest first. -/
def Loads {α : Type} (r : α → α → Prop) (query : Option α → List α)
    (answer : (List α → List α) → Option α → List α) (cursor : Option α) (page : List α) : Prop :=
  ∃ orderBy : List α → List α, (orderBy (query cursor)).Perm (query cursor) ∧
    (orderBy (query cursor)).Pairwise r ∧ answer orderBy cursor = page

/-- A page of a room: the client passes the id of the oldest message it has. -/
def LoadsMessages (store : SqlStore) (rows : List ChatRoomMessage) (roomId : String)
    (clearedAt : Option Int) (excludeProgress : Bool) (limit : Nat) :
    Option ChatRoomMessage → List ChatRoomMessage → Prop :=
  Loads (ChatRoomMessage.NotOlder store)
    (fun cursor => messageQuery store rows roomId clearedAt excludeProgress (cursor.map (·.id)))
    fun orderBy cursor => (getMessages store orderBy rows roomId limit clearedAt excludeProgress
      (cursor.map (·.id))).reverse

/-- A page of a ticket's comments. -/
def LoadsComments (store : SqlStore) (rows : List Comment) (ticketId : String) (limit : Nat) :
    Option Comment → List Comment → Prop :=
  Loads (Comment.NotOlder store)
    (fun cursor => commentQuery store rows ticketId (cursor.map (·.id)))
    fun orderBy cursor =>
      loadTicketComments store orderBy rows ticketId (some limit) (cursor.map (·.id))

/-- Paging back through a room ends and returns every message once, newest first, for every page
    size and every order of the ties that the query allows. -/
def RoomPagesExactly (store : SqlStore) (rows : List ChatRoomMessage) (roomId : String)
    (clearedAt : Option Int) (excludeProgress : Bool) : Prop :=
  ∀ limit, 0 < limit → PagesExactly (ChatRoomMessage.NotOlder store)
    (messageQuery store rows roomId clearedAt excludeProgress none)
    (LoadsMessages store rows roomId clearedAt excludeProgress limit)

/-- The same for the comments of a ticket. -/
def TicketPagesExactly (store : SqlStore) (rows : List Comment) (ticketId : String) : Prop :=
  ∀ limit, 0 < limit → PagesExactly (Comment.NotOlder store) (commentQuery store rows ticketId none)
    (LoadsComments store rows ticketId limit)

/-! ## Pages -/

/-- What a query may answer is a page. -/
theorem loads_iff {α : Type} {r : α → α → Prop} {query : Option α → List α}
    {answer : (List α → List α) → Option α → List α} {after : α → α → Bool} {rows : List α}
    {n : Nat} {cursor : Option α} (hn : 0 < n)
    (hanswer : ∀ orderBy, answer orderBy cursor = limited n (orderBy (query cursor)))
    (hquery : query cursor = behind after rows cursor) (page : List α) :
    Loads r query answer cursor page ↔ IsPage r n (behind after rows cursor) page := by
  simp only [Loads, IsPage, hanswer, hquery, limited, if_neg (show n ≠ 0 by omega)]
  constructor
  · rintro ⟨orderBy, hperm, hsorted, rfl⟩
    exact ⟨_, hperm, hsorted, rfl⟩
  · rintro ⟨ordered, hperm, hsorted, rfl⟩
    exact ⟨fun _ => ordered, hperm, hsorted, rfl⟩

theorem loadedAt_le (t : Int) : loadedAt t ≤ t := by
  unfold loadedAt
  omega

theorem beforeCursor_iff {t t' : Int} {id id' : String} :
    beforeCursor .postgres t id t' id' ↔ t' < t ∨ t' = t ∧ id' < id := by
  simp [beforeCursor]

/-- On PostgreSQL, what is before a row that is before the cursor is before the cursor too. -/
theorem beforeCursor_trans {t t₁ t₂ : Int} {id id₁ id₂ : String}
    (h : beforeCursor .postgres (loadedAt t) id t₁ id₁)
    (h' : beforeCursor .postgres (loadedAt t₁) id₁ t₂ id₂) :
    beforeCursor .postgres (loadedAt t) id t₂ id₂ := by
  rw [beforeCursor_iff] at h h' ⊢
  have := loadedAt_le t₁
  obtain h | ⟨h, hid⟩ := h
  · left
    omega
  · obtain h' | ⟨h', hid'⟩ := h'
    · left
      omega
    · by_cases heq : t₂ = loadedAt t
      · exact .inr ⟨heq, hid'.trans hid⟩
      · left
        omega

theorem beforeCursor_irrefl (t : Int) (id : String) :
    ¬beforeCursor .postgres (loadedAt t) id t id := by
  have := loadedAt_le t
  rw [beforeCursor_iff]
  rintro (h | ⟨-, h⟩)
  · omega
  · exact lt_irrefl id h

/-- On sql.js a row is before the cursor that it gives. -/
theorem beforeCursor_self (clock : Nat) (id : String) :
    beforeCursor .sqljs (loadedAt (createdAt .sqljs clock)) id (createdAt .sqljs clock) id := by
  apply decide_eq_true
  simp only [loadedAt, createdAt]
  omega

/-- A row that the cursor leaves for the next page. -/
def Kept (at_ : Int) (id : String) (at' : Int) (id' : String) : Prop :=
  at' < loadedAt at_ ∨ at' = loadedAt at_ ∧ id' < id

/-- One loader: what its query selects for a cursor is what it selects without one, before the
    cursor. -/
theorem exact_iff {α : Type} {r : α → α → Prop} [DecidableRel r] [Std.Total r] [IsTrans α r]
    {store : SqlStore} {inserted : α → Nat} {id : α → String} (query : Option α → List α)
    (size : Nat → Nat) {answer : Nat → (List α → List α) → Option α → List α}
    (hids : ((query none).map id).Nodup) (hone : size 1 = 1) (hsize : ∀ n, 0 < n → 0 < size n)
    (hanswer : ∀ n orderBy cursor,
      answer n orderBy cursor = limited (size n) (orderBy (query cursor)))
    (hquery : ∀ x ∈ query none, query (some x) = (query none).filter fun b =>
      beforeCursor store (loadedAt (createdAt store (inserted x))) (id x)
        (createdAt store (inserted b)) (id b)) :
    (∀ n, 0 < n → PagesExactly r (query none) (Loads r query (answer n))) ↔
      (store = .sqljs → query none = []) ∧
      ∀ a ∈ query none, ∀ b ∈ query none, a ≠ b → r a b →
        Kept (createdAt store (inserted a)) (id a) (createdAt store (inserted b)) (id b) := by
  have hload : ∀ n, 0 < n → ∀ cursor, (∀ x ∈ cursor, x ∈ query none) → ∀ page,
      Loads r query (answer n) cursor page ↔ IsPage r (size n) (behind (fun a b =>
        beforeCursor store (loadedAt (createdAt store (inserted a))) (id a)
          (createdAt store (inserted b)) (id b)) (query none) cursor) page := by
    intro n hn cursor hcursor page
    apply loads_iff (hsize n hn) fun orderBy => hanswer n orderBy cursor
    cases cursor with
    | none => rfl
    | some x => exact hquery x (hcursor x rfl)
  cases store with
  | sqljs =>
    rw [pagesExactly_iff_of_self (fun x _ => beforeCursor_self (inserted x) (id x)) hsize hload]
    constructor
    · intro hnone
      simp [hnone]
    · exact fun h => h.1 rfl
  | postgres =>
    simp only [reduceCtorEq, false_implies, true_and, Kept, ← beforeCursor_iff]
    apply pagesExactly_iff (fun a b =>
      beforeCursor .postgres (loadedAt (createdAt .postgres (inserted a))) (id a)
        (createdAt .postgres (inserted b)) (id b)) hids.of_map
    · exact fun _ _ _ => beforeCursor_trans
    · exact fun a => beforeCursor_irrefl _ (id a)
    · exact hone
    · exact hsize
    · exact hload

/-! ## The two loaders -/

instance (store : SqlStore) : DecidableRel (ChatRoomMessage.NotOlder store) := fun a b =>
  inferInstanceAs (Decidable (b.created_at store ≤ a.created_at store))

instance (store : SqlStore) : Std.Total (ChatRoomMessage.NotOlder store) :=
  ⟨fun a b => Int.le_total (b.created_at store) (a.created_at store)⟩

instance (store : SqlStore) : IsTrans ChatRoomMessage (ChatRoomMessage.NotOlder store) :=
  ⟨fun _ _ _ h h' => Int.le_trans h' h⟩

instance (store : SqlStore) : DecidableRel (Comment.NotOlder store) := fun a b =>
  inferInstanceAs (Decidable (b.created_at store < a.created_at store ∨ _ ∧ _))

instance (store : SqlStore) : Std.Total (Comment.NotOlder store) where
  total a b := by
    obtain h | h | h := lt_trichotomy (a.created_at store) (b.created_at store)
    · exact .inr (.inl h)
    · exact (le_total b.id a.id).imp (fun hid => .inr ⟨h.symm, hid⟩) fun hid => .inr ⟨h, hid⟩
    · exact .inl (.inl h)

instance (store : SqlStore) : IsTrans Comment (Comment.NotOlder store) where
  trans a b c h h' := by
    unfold Comment.NotOlder at h h' ⊢
    obtain h | ⟨h, hid⟩ := h <;> obtain h' | ⟨h', hid'⟩ := h'
    · left
      omega
    · left
      omega
    · left
      omega
    · exact .inr ⟨h'.trans h, hid'.trans hid⟩

theorem roomPagesExactly_iff (store : SqlStore) {messages : List ChatRoomMessage}
    (hids : (messages.map (·.id)).Nodup) (roomId : String) (clearedAt : Option Int)
    (excludeProgress : Bool) :
    RoomPagesExactly store messages roomId clearedAt excludeProgress ↔
      (store = .sqljs → messageQuery store messages roomId clearedAt excludeProgress none = []) ∧
      ∀ a ∈ messageQuery store messages roomId clearedAt excludeProgress none,
        ∀ b ∈ messageQuery store messages roomId clearedAt excludeProgress none,
          a ≠ b → a.NotOlder store b →
            Kept (a.created_at store) a.id (b.created_at store) b.id := by
  apply exact_iff
    (fun cursor => messageQuery store messages roomId clearedAt excludeProgress (cursor.map (·.id)))
    fun n => min n 200
  · exact hids.sublist (List.filter_sublist.map _)
  · rfl
  · intro n hn
    omega
  · exact fun n orderBy cursor => List.reverse_reverse _
  · intro x hx
    have hfind := find?_key_eq_some hids (List.mem_filter.mp hx).1 rfl
    simp only [messageQuery, Option.map_some, Option.map_none, Option.bind_some, hfind,
      Option.bind_none, Option.all_none, Option.all_some, List.filter_filter, Bool.and_true]
    exact List.filter_congr fun y _ => Bool.and_comm _ _

theorem ticketPagesExactly_iff (store : SqlStore) {comments : List Comment}
    (hids : (comments.map (·.id)).Nodup) (ticketId : String) :
    TicketPagesExactly store comments ticketId ↔
      (store = .sqljs → commentQuery store comments ticketId none = []) ∧
      ∀ a ∈ commentQuery store comments ticketId none,
        ∀ b ∈ commentQuery store comments ticketId none, a ≠ b → a.NotOlder store b →
          Kept (a.created_at store) a.id (b.created_at store) b.id := by
  apply exact_iff (fun cursor => commentQuery store comments ticketId (cursor.map (·.id)))
    fun n => min (max 1 n) 200
  · exact hids.sublist (List.filter_sublist.map _)
  · rfl
  · intro n hn
    omega
  · exact fun n orderBy cursor => rfl
  · intro x hx
    have hfind := find?_key_eq_some hids (List.mem_filter.mp hx).1 rfl
    have hticket : x.ticket_id = ticketId := by
      simpa [commentQuery] using (List.mem_filter.mp hx).2
    simp only [commentQuery, Option.map_some, Option.map_none, Option.bind_some, hfind,
      Option.bind_none, Option.filter_none, Option.all_none, List.filter_filter, Bool.and_true,
      Option.filter_some, hticket, decide_true, if_true, Option.all_some]
    exact List.filter_congr fun y _ => Bool.and_comm _ _

/-! ## Main result -/

/-- Paging back through a room, or a ticket's comments, is exact just if a row that may stand behind
    another one is before its truncated time, or at it with a smaller id; on sql.js, where the
    cursor is before itself, just if there is no row at all. -/
theorem history_exact_iff (store : SqlStore) (messages : List ChatRoomMessage)
    (comments : List Comment) (hmessages : (messages.map (·.id)).Nodup)
    (hcomments : (comments.map (·.id)).Nodup) (roomId ticketId : String) (clearedAt : Option Int)
    (excludeProgress : Bool) :
    (RoomPagesExactly store messages roomId clearedAt excludeProgress ↔
      (store = .sqljs → messageQuery store messages roomId clearedAt excludeProgress none = []) ∧
      ∀ a ∈ messageQuery store messages roomId clearedAt excludeProgress none,
        ∀ b ∈ messageQuery store messages roomId clearedAt excludeProgress none,
          a ≠ b → a.NotOlder store b →
            Kept (a.created_at store) a.id (b.created_at store) b.id) ∧
    (TicketPagesExactly store comments ticketId ↔
      (store = .sqljs → commentQuery store comments ticketId none = []) ∧
      ∀ a ∈ commentQuery store comments ticketId none,
        ∀ b ∈ commentQuery store comments ticketId none, a ≠ b → a.NotOlder store b →
          Kept (a.created_at store) a.id (b.created_at store) b.id) :=
  ⟨roomPagesExactly_iff store hmessages roomId clearedAt excludeProgress,
    ticketPagesExactly_iff store hcomments ticketId⟩

/-- On PostgreSQL: two messages a second apart, and two comments of neighbouring milliseconds. -/
theorem history_exact_second_apart :
    RoomPagesExactly .postgres
      [⟨"b", "room", "message", 1000700⟩, ⟨"a", "room", "message", 2000900⟩] "room" none false ∧
    TicketPagesExactly .postgres [⟨"a", "ticket", 1000500⟩, ⟨"b", "ticket", 1001700⟩] "ticket" := by
  obtain ⟨hroom, hticket⟩ := history_exact_iff .postgres
    [⟨"b", "room", "message", 1000700⟩, ⟨"a", "room", "message", 2000900⟩]
    [⟨"a", "ticket", 1000500⟩, ⟨"b", "ticket", 1001700⟩] (by decide) (by decide) "room" "ticket"
    none false
  rw [hroom, hticket]
  constructor
  · simp [messageQuery, Kept, loadedAt, ChatRoomMessage.NotOlder, ChatRoomMessage.created_at,
      createdAt]
  · simp [commentQuery, Kept, loadedAt, Comment.NotOlder, Comment.created_at, createdAt]

/-- On PostgreSQL two messages of one instant, or two comments of one millisecond; on sql.js two
    messages that are more than a second apart, or one comment. -/
theorem not_always_exact :
    (¬∀ messages : List ChatRoomMessage, (messages.map (·.id)).Nodup →
      RoomPagesExactly .postgres messages "room" none false) ∧
    (¬∀ comments : List Comment, (comments.map (·.id)).Nodup →
      TicketPagesExactly .postgres comments "ticket") ∧
    (¬∀ messages : List ChatRoomMessage, (messages.map (·.id)).Nodup →
      RoomPagesExactly .sqljs messages "room" none false) ∧
    ¬∀ comments : List Comment, (comments.map (·.id)).Nodup →
      TicketPagesExactly .sqljs comments "ticket" := by
  refine ⟨fun h => ?_, fun h => ?_, fun h => ?_, fun h => ?_⟩
  · have hids : (([⟨"a", "room", "message", 1000000⟩, ⟨"b", "room", "message", 1000000⟩] :
        List ChatRoomMessage).map (·.id)).Nodup := by decide
    have hkept := ((roomPagesExactly_iff .postgres hids "room" none false).mp (h _ hids)).2
      ⟨"a", "room", "message", 1000000⟩ (by decide) ⟨"b", "room", "message", 1000000⟩ (by decide)
      (by decide) (by decide)
    obtain hlt | ⟨-, hid⟩ := hkept
    · exact absurd hlt (by decide)
    · exact absurd hid (by decide)
  · have hids : (([⟨"a", "ticket", 1000500⟩, ⟨"b", "ticket", 1000700⟩] :
        List Comment).map (·.id)).Nodup := by decide
    have hkept := ((ticketPagesExactly_iff .postgres hids "ticket").mp (h _ hids)).2
      ⟨"b", "ticket", 1000700⟩ (by decide) ⟨"a", "ticket", 1000500⟩ (by decide) (by decide)
      (by decide)
    obtain hlt | ⟨heq, -⟩ := hkept
    · exact absurd hlt (by decide)
    · exact absurd heq (by decide)
  · have hids : (([⟨"x", "room", "message", 1000000⟩, ⟨"y", "room", "message", 2100000⟩] :
        List ChatRoomMessage).map (·.id)).Nodup := by decide
    exact absurd (((roomPagesExactly_iff .sqljs hids "room" none false).mp (h _ hids)).1 rfl)
      (by decide)
  · have hids : (([⟨"a", "ticket", 1000000⟩] : List Comment).map (·.id)).Nodup := by decide
    exact absurd (((ticketPagesExactly_iff .sqljs hids "ticket").mp (h _ hids)).1 rfl) (by decide)

end WorkflowBoard.History
