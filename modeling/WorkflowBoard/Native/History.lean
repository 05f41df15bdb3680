import Mathlib.Data.String.Basic
import WorkflowBoard.Native.RunBudget

/-!
# History pages (`room-messaging.service.ts`, `ticket-parsing.ts`)

Older messages of a room and older comments of a ticket are loaded page by page. Times are in
microseconds; a column holds of the instant of its insert what the store keeps, and an entity has
whole milliseconds. What a page has besides the rows themselves (names, attachments) and who may
read them are left out.
-/

namespace WorkflowBoard.History

open Budget (SqlStore createdAt)

structure ChatRoomMessage where
  id : String
  room_id : String
  type : String := "message"
  inserted_at : Nat
deriving DecidableEq

structure Comment where
  id : String
  ticket_id : String
  inserted_at : Nat
deriving DecidableEq

def ChatRoomMessage.created_at (store : SqlStore) (m : ChatRoomMessage) : Int :=
  createdAt store m.inserted_at

def Comment.created_at (store : SqlStore) (c : Comment) : Int := createdAt store c.inserted_at

/-- The `Date` that an entity has for a column. -/
def loadedAt (created_at : Int) : Int := created_at / 1000 * 1000

/-- `(created_at < :cursorAt OR (created_at = :cursorAt AND id < :cursorId))`. On sql.js both times
    are text, the column `YYYY-MM-DD HH:MM:SS` and the parameter with `.mmm` behind it: within one
    second the column is a prefix, so it is less, and it is never equal. -/
def beforeCursor (store : SqlStore) (cursorAt : Int) (cursorId : String) (created_at : Int)
    (id : String) : Bool :=
  match store with
  | .postgres => created_at < cursorAt || (created_at = cursorAt && id < cursorId)
  | .sqljs => created_at / 1000000 ≤ cursorAt / 1000000

/-- `.limit(limit)`, which 0 lifts. -/
def limited {α : Type} (limit : Nat) (rows : List α) : List α :=
  if limit = 0 then rows else rows.take limit

/-- The rows that the query of `getMessages` selects; `clearedAt` is that of the reader. The text of
    a later second is greater, that of the same one is not, so `created_at > :clearedAt` is the
    order of the times on both stores. -/
def messageQuery (store : SqlStore) (rows : List ChatRoomMessage) (roomId : String)
    (clearedAt : Option Int) (excludeProgress : Bool) (before : Option String) :
    List ChatRoomMessage :=
  let cursorMsg := before.bind fun id => rows.find? (·.id = id)
  rows.filter fun m => m.room_id = roomId && clearedAt.all (· < m.created_at store) &&
    !(excludeProgress && m.type = "progress") &&
    cursorMsg.all fun c =>
      beforeCursor store (loadedAt (c.created_at store)) c.id (m.created_at store) m.id

/-- `orderBy` is what the database makes of `ORDER BY created_at DESC`. -/
def getMessages (store : SqlStore) (orderBy : List ChatRoomMessage → List ChatRoomMessage)
    (rows : List ChatRoomMessage) (roomId : String) (limit : Nat) (clearedAt : Option Int)
    (excludeProgress : Bool) (before : Option String) : List ChatRoomMessage :=
  (limited (min limit 200)
    (orderBy (messageQuery store rows roomId clearedAt excludeProgress before))).reverse

def commentQuery (store : SqlStore) (rows : List Comment) (ticketId : String)
    (before : Option String) : List Comment :=
  let cursor := (before.bind fun id => rows.find? (·.id = id)).filter (·.ticket_id = ticketId)
  rows.filter fun c => c.ticket_id = ticketId &&
    cursor.all fun x =>
      beforeCursor store (loadedAt (x.created_at store)) x.id (c.created_at store) c.id

/-- `orderBy` is what the database makes of `ORDER BY created_at DESC, id DESC`. -/
def loadTicketComments (store : SqlStore) (orderBy : List Comment → List Comment)
    (rows : List Comment) (ticketId : String) (limit : Option Nat) (before : Option String) :
    List Comment :=
  limited (min (max 1 (limit.getD 50)) 200) (orderBy (commentQuery store rows ticketId before))

end WorkflowBoard.History
