import FanucDriver.Lib.Json
import FanucDriver.Lib.Record
import FanucDriver.Lib.Replay
import FanucDriver.Monitor.Table

/-!
# The text of a notification

The trigger `notify_event` builds a JSON text for every row that a statement changes, and
the callback of the listener reads it. PostgreSQL keeps one notification of several with the
same text in a transaction.

`statement_heard`: of a statement that takes effect, the callback makes the items of
`Statement.events`, one for each row and in their order. So `Feed`, where the notifications
are these items, leaves nothing out.

Mirroring notes:
- `json_build_object` puts blanks around a colon and after a comma, `row_to_json` puts none.
  Both escape what JSON requires, and nothing else.
- `pg_notify` refuses a text of 8000 bytes; a statement with such a row does not take effect.
- The callback passes on an address of any type; the trigger builds texts and integers.
-/

namespace FanucDriver.Monitor

open FanucDriver.Lib FanucDriver.Lib.Json

/-! ## `notify_event` -/

/-- A character of a string. -/
def escapeJson (c : Char) : List Char :=
  if c = '"' then ['\\', '"']
  else if c = '\\' then ['\\', '\\']
  else if c = '\x08' then ['\\', 'b']
  else if c = '\x0c' then ['\\', 'f']
  else if c = '\n' then ['\\', 'n']
  else if c = '\r' then ['\\', 'r']
  else if c = '\t' then ['\\', 't']
  else if c.toNat < 0x20 then unicodeEscape c
  else [c]

theorem escapeJson_reads (c : Char) (s : List Char) :
    readChar (escapeJson c ++ s) = some (c, s) := by
  unfold escapeJson
  split_ifs with hquote hslash hback hfeed hnewline hreturn htab hcontrol
  · subst hquote; rfl
  · subst hslash; rfl
  · subst hback; rfl
  · subst hfeed; rfl
  · subst hnewline; rfl
  · subst hreturn; rfl
  · subst htab; rfl
  · exact readChar_unicodeEscape (by omega) s
  · exact readChar_plain hquote hslash (by omega) s

/-- The texts of `row_to_json`. -/
def rowStyle : Style where
  escape := escapeJson
  comma := []
  colon := []
  escape_reads := escapeJson_reads
  comma_blank := nil_all_isBlank
  colon_blank := nil_all_isBlank

/-- The objects of `json_build_object`. -/
def builtLayout : Layout where
  before := [' ']
  after := [' ']
  comma := [' ']
  before_blank := space_all_isBlank
  after_blank := space_all_isBlank
  comma_blank := space_all_isBlank

/-- The JSON value of a column. -/
def textColumn (ip : Option String) : Json Token :=
  match ip with
  | none => .null
  | some ip => .string ip.toList

def integerColumn (port : Option Int32) : Json Token :=
  match port with
  | none => .null
  | some port => .number (.ofInt port.toInt)

/-- `row_to_json(NEW)` -/
def rowToJson (new : List Char × Config) : Json Token :=
  .object [("machine_id".toList, .string new.1),
    ("machine_ip".toList, textColumn new.2.machineIp),
    ("machine_port".toList, integerColumn new.2.machinePort)]

/-- `json_build_object('machine_id', …, 'payload', …)` -/
def payloadMembers : RowChange (List Char) → List (List Char × Json Token)
  | .delete old => [("machine_id".toList, .string old.1), ("payload".toList, .null)]
  | .insert new | .update _ new =>
    [("machine_id".toList, .string new.1), ("payload".toList, rowToJson new)]

/-- `payload::text` -/
def payloadText (change : RowChange (List Char)) : List Char :=
  builtLayout.object rowStyle (payloadMembers change)

/-- The notifications of a transaction; a text is sent once. -/
def notifications (changes : List (RowChange (List Char))) : List (List Char) :=
  (changes.map payloadText).foldl (insertNew id) []

/-! ## `cb` -/

/-- `data[k]` -/
def getItem (k : List Char) : Json Token → Option (Json Token)
  | .object ms => overlay ms k
  | _ => none

/-- `if d` -/
def truthy : Json Token → Bool
  | .null => false
  | .bool b => b
  | .number x => (x.text.takeWhile fun c => c ≠ 'e' ∧ c ≠ 'E').any fun c => '1' ≤ c ∧ c ≤ '9'
  | .string s => !s.isEmpty
  | .array xs => !xs.isEmpty
  | .object ms => !ms.isEmpty

def readText : Json Token → Option (Option String)
  | .null => some none
  | .string s => some (some (String.ofList s))
  | _ => none

def readInteger : Json Token → Option (Option Int32)
  | .null => some none
  | .number x => (intOf? x.text).map fun n => some (Int32.ofInt n)
  | _ => none

/-- The item that the callback puts on `updates_queue`; nothing where it raises. -/
def cb (payload : List Char) : Option (List Char × Option Config) := do
  let data ← parse payload
  let machine_id ← getItem "machine_id".toList data
  let d ← getItem "payload".toList data
  match machine_id with
  | .string machine_id =>
    if truthy d then
      let machineIp ← (getItem "machine_ip".toList d).bind readText
      let machinePort ← (getItem "machine_port".toList d).bind readInteger
      some (machine_id, some { machineIp := machineIp, machinePort := machinePort })
    else some (machine_id, none)
  | _ => none

/-! ## The round trip -/

theorem readText_textColumn (ip : Option String) : readText (textColumn ip) = some ip := by
  cases ip with
  | none => rfl
  | some ip => exact congrArg (fun s => some (some s)) String.ofList_toList

theorem readInteger_integerColumn (port : Option Int32) :
    readInteger (integerColumn port) = some port := by
  cases port with
  | none => rfl
  | some port =>
    show (intOf? (intText port.toInt)).map _ = _
    rw [intOf?_intText, Option.map_some, Int32.ofInt_toInt]

/-- What the callback makes of a row. -/
theorem cb_row {payload : List Char} {new : List Char × Config}
    (h : parse payload = some (.object
      [("machine_id".toList, .string new.1), ("payload".toList, rowToJson new)])) :
    cb payload = some (new.1, some new.2) := by
  have hcb : cb payload =
      ((getItem "machine_ip".toList (rowToJson new)).bind readText).bind fun machineIp =>
        ((getItem "machine_port".toList (rowToJson new)).bind readInteger).bind
          fun machinePort =>
            some (new.1, some { machineIp := machineIp, machinePort := machinePort }) := by
    rw [cb, h]
    rfl
  have hip : (getItem "machine_ip".toList (rowToJson new)).bind readText
      = some new.2.machineIp := readText_textColumn new.2.machineIp
  have hport : (getItem "machine_port".toList (rowToJson new)).bind readInteger
      = some new.2.machinePort := readInteger_integerColumn new.2.machinePort
  rw [hcb, hip, Option.bind_some, hport, Option.bind_some]

/-- **One change**: the callback reads the item that the trigger tells of. -/
theorem cb_payloadText (change : RowChange (List Char)) :
    cb (payloadText change) = some (notifyEvent change) := by
  have hparse : parse (payloadText change) = some (.object (payloadMembers change)) :=
    builtLayout.parse_object rowStyle (payloadMembers change)
  cases change with
  | delete old =>
    rw [cb, hparse]
    rfl
  | insert new => exact cb_row hparse
  | update old new => exact cb_row hparse

/-! ## A statement -/

/-- The values that some elements have are among those of all. -/
theorem filterMap_sublist_map {A B : Type} {f : A → Option B} {g : A → B}
    (h : ∀ a b, f a = some b → b = g a) (as : List A) :
    (as.filterMap f).Sublist (as.map g) := by
  induction as with
  | nil => exact List.Sublist.refl []
  | cons a as ih =>
    rw [List.map_cons]
    cases hf : f a with
    | none =>
      rw [List.filterMap_cons_none hf]
      exact ih.cons (g a)
    | some b =>
      rw [List.filterMap_cons_some hf, h a b hf]
      exact ih.cons_cons (g a)

/-- The rows that a statement tells of have different ids. -/
theorem Statement.events_nodup {M : Type} [DecidableEq M] {st : Statement M} {t t' : Table M}
    (h : st.execute t = some t') : ((st.events t).map Prod.fst).Nodup := by
  have hresult : ((st.result t).map Prod.fst).Nodup := by
    rw [← Statement.execute_rows h]
    exact t'.nodup
  cases st with
  | insert rows =>
    have hids : ((Statement.insert rows).events t).map Prod.fst = rows.map Prod.fst := by
      simp [Statement.events, Statement.changes, notifyEvent]
    rw [hids]
    exact hresult.sublist ((List.sublist_append_right t.rows rows).map Prod.fst)
  | update set =>
    have hids : ((Statement.update set).events t).map Prod.fst
        = t.rows.filterMap fun old => (set old).map Prod.fst := by
      simp only [Statement.events, Statement.changes, List.map_filterMap, Option.map_map]
      rfl
    have hall : ((Statement.update set).result t).map Prod.fst
        = t.rows.map fun old => ((set old).getD old).1 := List.map_map ..
    rw [hids]
    rw [hall] at hresult
    refine hresult.sublist (filterMap_sublist_map (fun old m hm => ?_) t.rows)
    obtain ⟨new, hnew, rfl⟩ := Option.map_eq_some_iff.mp hm
    rw [hnew, Option.getD_some]
  | delete where_ =>
    have hids : ((Statement.delete where_).events t).map Prod.fst
        = (t.rows.filter where_).map Prod.fst := by
      simp [Statement.events, Statement.changes, notifyEvent]
    rw [hids]
    exact t.nodup.sublist (List.filter_sublist.map Prod.fst)

/-- **What the daemon hears of a statement**: the callback makes one item of every row that
the statement changes, in their order, and no notification is kept back. -/
theorem statement_heard {st : Statement (List Char)} {t t' : Table (List Char)}
    (h : st.execute t = some t') :
    notifications (st.changes t) = (st.changes t).map payloadText ∧
    (notifications (st.changes t)).mapM cb = some (st.events t) := by
  have hread : ((st.changes t).map payloadText).map cb = (st.events t).map some := by
    rw [Statement.events, List.map_map, List.map_map]
    exact List.map_congr_left fun change _ => cb_payloadText change
  -- the texts differ, as the items they are read as do
  have htexts : ((st.changes t).map payloadText).Nodup := by
    refine List.Nodup.of_map cb ?_
    rw [hread]
    exact (List.Nodup.of_map Prod.fst (Statement.events_nodup h)).map fun _ _ => Option.some.inj
  have hall : notifications (st.changes t) = (st.changes t).map payloadText :=
    foldl_insertNew _ (by simpa using htexts)
  refine ⟨hall, ?_⟩
  rw [hall, mapM_eq_some_iff, Statement.events, List.forall₂_map_left_iff,
    List.forall₂_map_right_iff, List.forall₂_same]
  exact fun change _ => cb_payloadText change

/-- Two machines, one of them with quotes in its id. -/
def twoMachines : Table (List Char) where
  rows := [("lathe".toList, ⟨some "10.0.0.7", some 8193⟩),
    ("mill \"2\"".toList, ⟨none, none⟩)]
  nodup := by decide

/-- Both get one address. -/
def oneAddress : Statement (List Char) :=
  .update fun old => some (old.1, ⟨some "10.0.0.9", some 8193⟩)

/-- The callback hears of both. -/
theorem statement_heard_quoted :
    (notifications (oneAddress.changes twoMachines)).mapM cb = some
      [("lathe".toList, some ⟨some "10.0.0.9", some 8193⟩),
        ("mill \"2\"".toList, some ⟨some "10.0.0.9", some 8193⟩)] := by
  have hexecutes : (oneAddress.execute twoMachines).isSome = true := by
    decide
  obtain ⟨t', h⟩ := Option.isSome_iff_exists.mp hexecutes
  exact (statement_heard h).2

end FanucDriver.Monitor
