import FanucDriver.Debug.Loaders
import FanucDriver.Lib.Replay
import FanucDriver.Lib.Steps

/-!
# The loop of `dump.py`

`dump.py` reads the topic from its beginning each time it is started, and inserts a row for
every message. It commits when a message comes more than five seconds after the last
commit, before that message is inserted; what is not committed when it ends is lost, and a
message that it cannot insert ends it.

`Dump.table_loaded`: over any number of starts, failures and kills, the table holds the rows of
every partition up to a place in it, once each and in order. The places only move forward,
and none moves past a message that ends the program. Where the topic has one partition,
the row of its last message is not in the table.

Mirroring notes:
- A consumer without a group starts at the earliest message of every partition, and takes
  the partitions in any order. Offsets grow along a partition. The topic keeps its messages.
- `accepts` says which values the columns take, `dated` which timestamps
  `datetime.fromtimestamp` has a date for. The primary key is the one of the table that the
  connector creates. No other program writes to the table.
- Times are microseconds of `time.time()`, which may jump. What is printed is left out.
-/

namespace FanucDriver.Debug

open FanucDriver.Lib FanucDriver.Lib.Json

/-! ## Messages and rows -/

/-- What a message of the topic is to the loop. -/
inductive Record where
  /-- `json.loads` raises an exception. -/
  | unreadable
  /-- There is no `meta`, no `values` or no key. -/
  | incomplete
  | message (msg : Message)

def Record.offset? : Record → Option ℤ
  | message msg => some msg.offset
  | _ => none

/-- The value of an integer column. -/
def integerAt (row : Items) (c : List Char) : Option ℤ :=
  match written row c with
  | .number x => intOf? x.text
  | _ => none

/-- `pk.fields=offset,partition` -/
def primaryKey (row : Items) : Option ℤ × Option ℤ :=
  (integerAt row "offset".toList, integerAt row "partition".toList)

section
variable (accepts : Items → Bool) (dated : ℤ → Bool)

/-- `cur.execute(q, values)`: the row, nothing where it raises an error. -/
def insertedRow (msg : Message) : Option Items := execute accepts (dumpItems msg)

namespace Record

def row : Record → Option Items
  | message msg => insertedRow accepts msg
  | _ => none

/-- The message ends the program. -/
def Fatal : Record → Prop
  | unreadable => False
  | incomplete => True
  | message msg => insertedRow accepts msg = none

end Record

/-! ## The loop -/

/-- One run of the program: its place in every partition, the table as its transaction
sees it, and `t`. -/
structure Session where
  pos : ℤ → ℕ
  view : List Items
  t : ℤ

/-- The topic, what is committed, and the run of the program if there is one. -/
structure Dump where
  log : ℤ → List Record
  table : List Items
  session : Option Session

namespace Dump

def empty : Dump where
  log _ := []
  table := []
  session := none

inductive Event where
  /-- A message is appended to a partition. -/
  | produce (p : ℤ) (r : Record)
  | start (t : ℤ)
  /-- The next message of a partition, read at `nt`. -/
  | next (p nt : ℤ)
  | kill

/-- What may come next in a partition. -/
def follows (log : List Record) (p : ℤ) : Record → Bool
  | .message msg => msg.partition = p ∧ ∀ x ∈ log.filterMap Record.offset?, x < msg.offset
  | _ => true

/-- `cur.execute(q, values)`, or the end. -/
def insert (s : Dump) (c : Session) (p : ℤ) (msg : Message) : Dump :=
  match insertedRow accepts msg with
  | none => { s with session := none }
  | some row =>
    { s with
      session := some { c with pos := advance c.pos p, view := insertNew primaryKey c.view row } }

/-- The body of the loop. -/
def read (s : Dump) (c : Session) (p nt : ℤ) : Record → Dump
  | .unreadable => { s with session := some { c with pos := advance c.pos p } }
  | .incomplete => { s with session := none }
  | .message msg =>
    if nt - c.t > 5000000 then
      if dated msg.timestamp then
        insert accepts { s with table := c.view } { c with t := nt } p msg
      else { s with session := none }
    else insert accepts s c p msg

def step (s : Dump) : Event → Option Dump
  | .produce p r =>
    if follows (s.log p) p r then
      some { s with log := Function.update s.log p (s.log p ++ [r]) }
    else none
  | .start t =>
    match s.session with
    | none => some { s with session := some { pos := fun _ => 0, view := s.table, t := t } }
    | some _ => none
  | .next p nt =>
    match s.session with
    | none => none
    | some c => (s.log p)[c.pos p]?.map (read accepts dated s c p nt)
  | .kill => some { s with session := none }

end Dump

variable {accepts dated}

/-! ## The key of a row -/

theorem integerAt_of_mem {row : Items} (hnodup : (row.map Prod.fst).Nodup) {c : List Char}
    {x : ℤ} (h : (c, Json.number (Token.ofInt x)) ∈ row) : integerAt row c = some x := by
  rw [integerAt, written, overlay_of_mem hnodup h]
  exact intOf?_intText x

theorem primaryKey_of_insertedRow {msg : Message} {row : Items}
    (h : insertedRow accepts msg = some row) :
    primaryKey row = (some msg.offset, some msg.partition) := by
  obtain ⟨hnodup, -, rfl⟩ := execute_eq_some_iff.mp h
  have hfixed : ∀ c v, (c, v) ∈ fixedItems msg → c ∈ columns → c ∉ transformers →
      (c, v) ∈ dumpItems msg := by
    intro c v hmem hcolumn hplain
    refine List.mem_map.mpr ⟨(c, v), List.mem_filter.mpr ⟨?_, decide_eq_true hcolumn⟩, ?_⟩
    · exact List.mem_append_left _ (List.mem_append_left _ hmem)
    · rw [transform, if_neg hplain]
  have hoffset := hfixed "offset".toList (.number (.ofInt msg.offset)) (by simp [fixedItems])
    (by decide) (by decide)
  have hpartition := hfixed "partition".toList (.number (.ofInt msg.partition))
    (by simp [fixedItems]) (by decide) (by decide)
  rw [primaryKey, integerAt_of_mem hnodup hoffset, integerAt_of_mem hnodup hpartition]

/-! ## The topic -/

/-- The messages of a partition carry its number and growing offsets. -/
structure Ordered (log : ℤ → List Record) : Prop where
  partition : ∀ p msg, Record.message msg ∈ log p → msg.partition = p
  offsets : ∀ p, ((log p).filterMap Record.offset?).Pairwise (· < ·)

theorem Record.offset?_of_row {r : Record} {row : Items} (h : r.row accepts = some row) :
    r.offset? = (primaryKey row).1 := by
  cases r with
  | message msg =>
    rw [primaryKey_of_insertedRow h]
    rfl
  | _ => exact absurd h.symm (Option.some_ne_none row)

/-- The offsets of the rows are among those of the messages. -/
theorem map_row_sublist (accepts : Items → Bool) (rs : List Record) :
    ((rs.filterMap (Record.row accepts)).map fun row => (primaryKey row).1).Sublist
      ((rs.filterMap Record.offset?).map some) := by
  induction rs with
  | nil => exact List.Sublist.refl _
  | cons r rs ih =>
    cases hrow : r.row accepts with
    | none =>
      rw [List.filterMap_cons_none hrow]
      exact ih.trans (((List.sublist_cons_self r rs).filterMap _).map _)
    | some row =>
      have hoffset := Record.offset?_of_row hrow
      cases hr : r.offset? with
      | none =>
        cases r with
        | message msg => exact absurd hr (Option.some_ne_none _)
        | _ => exact absurd hrow.symm (Option.some_ne_none row)
      | some x =>
        rw [List.filterMap_cons_some hrow, List.filterMap_cons_some hr, List.map_cons,
          List.map_cons, ← hoffset, hr]
        exact ih.cons_cons _

theorem Ordered.keyed {log : ℤ → List Record} (h : Ordered log) :
    Keyed primaryKey Prod.snd (Record.row accepts) log where
  nodup p := by
    have hdistinct : ((log p).filterMap Record.offset?).Nodup :=
      (h.offsets p).imp fun hlt => Int.ne_of_lt hlt
    have hoffsets := (hdistinct.map fun _ _ => Option.some.inj).sublist
      (map_row_sublist accepts (log p))
    refine List.Nodup.of_map Prod.fst ?_
    rw [List.map_map]
    exact hoffsets
  source p r hr row hrow := by
    cases r with
    | message msg =>
      rw [primaryKey_of_insertedRow hrow, h.partition p msg hr]
    | _ => exact absurd hrow.symm (Option.some_ne_none row)

theorem Ordered.produce {log : ℤ → List Record} (h : Ordered log) {p : ℤ} {r : Record}
    (hfollows : Dump.follows (log p) p r = true) :
    Ordered (Function.update log p (log p ++ [r])) where
  partition q msg hmem := by
    by_cases hq : q = p
    · subst hq
      rw [Function.update_self] at hmem
      rcases List.mem_append.mp hmem with hmem | hmem
      · exact h.partition q msg hmem
      · rw [← List.mem_singleton.mp hmem] at hfollows
        exact (of_decide_eq_true hfollows).1
    · rw [Function.update_of_ne hq] at hmem
      exact h.partition q msg hmem
  offsets q := by
    by_cases hq : q = p
    · subst hq
      rw [Function.update_self, List.filterMap_append]
      refine List.pairwise_append.mpr ⟨h.offsets q, ?_, fun x hx y hy => ?_⟩
      · cases r with
        | message msg => exact List.pairwise_singleton _ _
        | _ => exact List.Pairwise.nil
      · cases r with
        | message msg =>
          rw [show y = msg.offset from List.mem_singleton.mp hy]
          exact (of_decide_eq_true hfollows).2 x hx
        | _ => exact absurd hy List.not_mem_nil
    · rw [Function.update_of_ne hq]
      exact h.offsets q

/-! ## What is loaded -/

/-- The table holds the rows of every partition up to a place in it, and no message before
that place ends the program. -/
structure Loaded (accepts : Items → Bool) (log : ℤ → List Record) (n : ℤ → ℕ)
    (table : List Items) : Prop where
  bound : ∀ p, n p ≤ (log p).length
  sound : ∀ p, ∀ r ∈ (log p).take (n p), ¬r.Fatal accepts
  rows : HoldsUpTo primaryKey Prod.snd (Record.row accepts) log n table

namespace Loaded

variable {log : ℤ → List Record} {n pos : ℤ → ℕ} {table : List Items} {p : ℤ} {r : Record}

theorem start (log : ℤ → List Record) : Loaded accepts log (fun _ => 0) [] where
  bound _ := Nat.zero_le _
  sound _ _ h := absurd h List.not_mem_nil
  rows := HoldsUpTo.nil

/-- The messages up to one that is read. -/
theorem advance (h : Loaded accepts log (fun q => max (n q) (pos q)) table)
    (hr : (log p)[pos p]? = some r) (hfatal : ¬r.Fatal accepts) {table' : List Items}
    (hrows : HoldsUpTo primaryKey Prod.snd (Record.row accepts) log
      (fun q => max (n q) (Lib.advance pos p q)) table') :
    Loaded accepts log (fun q => max (n q) (Lib.advance pos p q)) table' := by
  have hlt : pos p < (log p).length := (List.getElem?_eq_some_iff.mp hr).1
  refine ⟨fun q => ?_, fun q => ?_, hrows⟩
  · have hbound := h.bound q
    by_cases hq : q = p
    · subst hq
      rw [advance_self]
      omega
    · rw [advance_of_ne hq]
      exact hbound
  · intro x hx
    by_cases hq : q = p
    · subst hq
      rw [advance_self] at hx
      by_cases hpos : pos q < n q
      · have hmax : max (n q) (pos q + 1) = max (n q) (pos q) := by omega
        rw [hmax] at hx
        exact h.sound q x hx
      · have hmax : max (n q) (pos q + 1) = max (n q) (pos q) + 1 := by omega
        have hold : max (n q) (pos q) = pos q := by omega
        rw [hmax, List.take_add_one, List.mem_append] at hx
        rcases hx with hx | hx
        · exact h.sound q x hx
        · rw [hold, hr] at hx
          exact List.mem_singleton.mp hx ▸ hfatal
    · rw [advance_of_ne hq] at hx
      exact h.sound q x hx

/-- The topic grows. -/
theorem grow {log' : ℤ → List Record} (h : Loaded accepts log n table)
    (hlog : ∀ p, log p <+: log' p) : Loaded accepts log' n table := by
  have htake : ∀ p, (log' p).take (n p) = (log p).take (n p) := by
    intro p
    obtain ⟨rs, hrs⟩ := hlog p
    rw [← hrs]
    exact take_grow (h.bound p) rs
  refine ⟨fun p => (h.bound p).trans (hlog p).length_le, fun p => ?_, h.rows.grow htake⟩
  rw [htake p]
  exact h.sound p

end Loaded

/-! ## Runs -/

namespace Dump

/-- What a step can do. -/
inductive Moves (accepts : Items → Bool) (dated : ℤ → Bool) (s : Dump) : Dump → Prop where
  | produce (p : ℤ) (r : Record) (hfollows : follows (s.log p) p r = true) :
      Moves accepts dated s { s with log := Function.update s.log p (s.log p ++ [r]) }
  | start (t : ℤ) :
      Moves accepts dated s
        { s with session := some { pos := fun _ => 0, view := s.table, t := t } }
  | next (c : Session) (p nt : ℤ) (r : Record) (hc : s.session = some c)
      (hr : (s.log p)[c.pos p]? = some r) : Moves accepts dated s (read accepts dated s c p nt r)
  | kill : Moves accepts dated s { s with session := none }

theorem moves_of_step {s s' : Dump} {e : Event} (h : step accepts dated s e = some s') :
    Moves accepts dated s s' := by
  cases e with
  | produce p r =>
    simp only [step] at h
    split at h
    next hfollows => exact Option.some.inj h ▸ .produce p r hfollows
    next => exact absurd h.symm (Option.some_ne_none s')
  | start t =>
    simp only [step] at h
    split at h
    next => exact Option.some.inj h ▸ .start t
    next => exact absurd h.symm (Option.some_ne_none s')
  | next p nt =>
    simp only [step] at h
    split at h
    next => exact absurd h.symm (Option.some_ne_none s')
    next c hc =>
      obtain ⟨r, hr, rfl⟩ := Option.map_eq_some_iff.mp h
      exact .next c p nt r hc hr
  | kill => exact Option.some.inj h ▸ .kill

/-! ### The topic -/

theorem prefix_update (log : ℤ → List Record) (p : ℤ) (r : Record) (q : ℤ) :
    log q <+: Function.update log p (log p ++ [r]) q := by
  by_cases hq : q = p
  · subst hq
    rw [Function.update_self]
    exact List.prefix_append _ _
  · refine ⟨[], ?_⟩
    rw [List.append_nil, Function.update_of_ne hq]

@[simp] theorem insert_log (s : Dump) (c : Session) (p : ℤ) (msg : Message) :
    (insert accepts s c p msg).log = s.log := by
  unfold insert
  split <;> rfl

@[simp] theorem read_log (s : Dump) (c : Session) (p nt : ℤ) (r : Record) :
    (read accepts dated s c p nt r).log = s.log := by
  cases r with
  | message msg =>
    simp only [read]
    split_ifs <;> simp
  | _ => rfl

theorem Moves.log_prefix {s s' : Dump} (h : Moves accepts dated s s') (q : ℤ) :
    s.log q <+: s'.log q := by
  cases h with
  | produce p r => exact prefix_update s.log p r q
  | next c p nt r =>
    refine ⟨[], ?_⟩
    rw [List.append_nil, read_log]
  | _ => exact List.prefix_rfl

/-! ### The invariant -/

/-- What holds of the table, and of what the running program sees of it. -/
structure Inv (accepts : Items → Bool) (s : Dump) (n : ℤ → ℕ) : Prop where
  ordered : Ordered s.log
  loaded : Loaded accepts s.log n s.table
  view : ∀ c, s.session = some c →
    Loaded accepts s.log (fun q => max (n q) (c.pos q)) c.view
  last : ∀ q, (∀ p, p ≠ q → s.log p = []) → n q = 0 ∨ n q < (s.log q).length

section
variable {s : Dump} {n : ℤ → ℕ} {c : Session} {p nt : ℤ} {msg : Message} {r : Record}

theorem Inv.empty : Inv accepts Dump.empty fun _ => 0 where
  ordered := ⟨fun _ _ h => absurd h List.not_mem_nil, fun _ => List.Pairwise.nil⟩
  loaded := Loaded.start _
  view _ h := absurd h.symm (Option.some_ne_none _)
  last _ _ := Or.inl rfl

theorem Inv.stop (h : Inv accepts s n) : Inv accepts { s with session := none } n where
  ordered := h.ordered
  loaded := h.loaded
  view _ h := absurd h.symm (Option.some_ne_none _)
  last := h.last

/-- A program that starts sees what is committed. -/
theorem Inv.start (h : Inv accepts s n) (t : ℤ) :
    Inv accepts { s with session := some { pos := fun _ => 0, view := s.table, t := t } } n where
  ordered := h.ordered
  loaded := h.loaded
  view c hc := by
    cases hc
    have hmax : (fun q => max (n q) 0) = n := funext fun q => Nat.max_zero (n q)
    rw [hmax]
    exact h.loaded
  last := h.last

/-- What comes into the view when the program goes on. -/
theorem Inv.advance {view : List Items} (h : Inv accepts { s with session := some c } n)
    (hr : (s.log p)[c.pos p]? = some r) (hfatal : ¬r.Fatal accepts)
    (hrows : HoldsUpTo primaryKey Prod.snd (Record.row accepts) s.log
      (fun q => max (n q) (Lib.advance c.pos p q)) view) :
    Inv accepts
      { s with session := some { c with pos := Lib.advance c.pos p, view := view } } n where
  ordered := h.ordered
  loaded := h.loaded
  view c' hc' := by
    cases hc'
    exact (h.view c rfl).advance hr hfatal hrows
  last := h.last

/-- The commit before the message at a place is inserted. -/
theorem Inv.commit (h : Inv accepts { s with session := some c } n)
    (hr : (s.log p)[c.pos p]? = some r) (nt : ℤ) :
    Inv accepts { s with table := c.view, session := some { c with t := nt } }
      fun q => max (n q) (c.pos q) where
  ordered := h.ordered
  loaded := h.view c rfl
  view c' hc' := by
    cases hc'
    have hmax : (fun q => max (max (n q) (c.pos q)) (c.pos q)) = fun q => max (n q) (c.pos q) :=
      funext fun q => Nat.max_eq_left (Nat.le_max_right (n q) (c.pos q))
    rw [hmax]
    exact h.view c rfl
  last q hq := by
    have hlt : c.pos p < (s.log p).length := (List.getElem?_eq_some_iff.mp hr).1
    by_cases hp : p = q
    · subst hp
      have hbefore : n p = 0 ∨ n p < (s.log p).length := h.last p hq
      show max (n p) (c.pos p) = 0 ∨ max (n p) (c.pos p) < (s.log p).length
      omega
    · -- nothing is read from another partition
      have hnil : s.log p = [] := hq p hp
      rw [hnil] at hlt
      exact absurd hlt (Nat.not_lt_zero _)

theorem Inv.insert (h : Inv accepts { s with session := some c } n)
    (hr : (s.log p)[c.pos p]? = some (.message msg)) :
    Inv accepts (Dump.insert accepts s c p msg) n := by
  unfold Dump.insert
  cases hrow : insertedRow accepts msg with
  | none => exact h.stop
  | some row =>
    have hfatal : ¬(Record.message msg).Fatal accepts := fun hnone =>
      Option.some_ne_none row (hrow.symm.trans hnone)
    exact h.advance hr hfatal ((h.view c rfl).rows.read h.ordered.keyed hr hrow)

/-- **One message.** -/
theorem Inv.read (h : Inv accepts s n) (hc : s.session = some c)
    (hr : (s.log p)[c.pos p]? = some r) (nt : ℤ) :
    ∃ m, (∀ q, n q ≤ m q) ∧ Inv accepts (Dump.read accepts dated s c p nt r) m := by
  have hs : Inv accepts { s with session := some c } n := by
    rw [← hc]
    exact h
  cases r with
  | unreadable =>
    refine ⟨n, fun q => le_rfl, ?_⟩
    exact hs.advance hr id ((hs.view c rfl).rows.pass hr rfl)
  | incomplete => exact ⟨n, fun q => le_rfl, h.stop⟩
  | message msg =>
    simp only [Dump.read]
    split_ifs with hdue hdated
    · have hcommit := hs.commit hr nt
      refine ⟨fun q => max (n q) (c.pos q), fun q => Nat.le_max_left .., ?_⟩
      exact Inv.insert (s := { s with table := c.view }) (c := { c with t := nt }) hcommit hr
    · exact ⟨n, fun q => le_rfl, h.stop⟩
    · exact ⟨n, fun q => le_rfl, hs.insert hr⟩

/-- A message that is appended. -/
theorem Inv.produce (h : Inv accepts s n) (hfollows : follows (s.log p) p r = true) :
    Inv accepts { s with log := Function.update s.log p (s.log p ++ [r]) } n := by
  have hlog := prefix_update s.log p r
  refine ⟨h.ordered.produce hfollows, h.loaded.grow hlog,
    fun c hc => (h.view c hc).grow hlog, fun q hq => ?_⟩
  have hbefore : ∀ p', p' ≠ q → s.log p' = [] := fun p' hp' =>
    List.prefix_nil.mp ((hq p' hp') ▸ hlog p')
  exact (h.last q hbefore).imp_right fun hlt => lt_of_lt_of_le hlt (hlog q).length_le

/-- **One step.** -/
theorem Inv.moves {s' : Dump} (h : Inv accepts s n) (hmoves : Moves accepts dated s s') :
    ∃ m, (∀ q, n q ≤ m q) ∧ Inv accepts s' m := by
  cases hmoves with
  | produce p r hfollows => exact ⟨n, fun q => le_rfl, h.produce hfollows⟩
  | start t => exact ⟨n, fun q => le_rfl, h.start t⟩
  | next c p nt r hc hr => exact h.read hc hr nt
  | kill => exact ⟨n, fun q => le_rfl, h.stop⟩

end

/-- **A run.** -/
theorem Inv.run {s s' : Dump} {n : ℤ → ℕ} {es : List Event} (h : Inv accepts s n)
    (hrun : exec (step accepts dated) s es = some s') :
    (∀ q, s.log q <+: s'.log q) ∧ ∃ m, (∀ q, n q ≤ m q) ∧ Inv accepts s' m := by
  refine exec_invariant
    (P := fun u => (∀ q, s.log q <+: u.log q) ∧ ∃ m, (∀ q, n q ≤ m q) ∧ Inv accepts u m)
    (fun u e u' hu hstep => ?_) hrun ⟨fun q => List.prefix_rfl, n, fun q => le_rfl, h⟩
  obtain ⟨hlog, m, hm, hinv⟩ := hu
  have hmoves := moves_of_step hstep
  obtain ⟨m', hm', hinv'⟩ := hinv.moves hmoves
  exact ⟨fun q => (hlog q).trans (hmoves.log_prefix q), m', fun q => (hm q).trans (hm' q), hinv'⟩

/-- **What the program loads**, over any number of starts: the rows of every partition up to
a place, which stays and only moves forward. -/
theorem table_loaded {es es' : List Event} {s s' : Dump}
    (hrun : exec (step accepts dated) empty es = some s)
    (hrun' : exec (step accepts dated) s es' = some s') :
    ∃ n n', (∀ p, n p ≤ n' p) ∧ Loaded accepts s.log n s.table ∧
      Loaded accepts s'.log n' s'.table ∧ s.table ⊆ s'.table ∧
      ∀ q, (∀ p, p ≠ q → s'.log p = []) → n' q = 0 ∨ n' q < (s'.log q).length := by
  have hempty : Inv accepts empty fun _ => 0 := Inv.empty
  obtain ⟨-, n, -, hinv⟩ := hempty.run hrun
  obtain ⟨hlog, n', hle, hinv'⟩ := hinv.run hrun'
  have hgrown := hinv.loaded.grow hlog
  exact ⟨n, n', hle, hinv.loaded, hinv'.loaded, hgrown.rows.subset hinv'.loaded.rows hle,
    hinv'.last⟩

/-- A message of the first partition, without members. -/
def emptyMessage (offset : ℤ) : Message where
  key := "lathe".toList
  offset := offset
  timestamp := 1600000000000
  partition := 0
  meta_ := []
  values := []
  meta_nodup := List.nodup_nil
  values_nodup := List.nodup_nil

/-- Two messages are read, the second one after six seconds; then the program is killed. -/
def killed : List Event :=
  [.produce 0 (.message (emptyMessage 7)), .produce 0 (.message (emptyMessage 8)), .start 0,
    .next 0 1000000, .next 0 6000000, .kill]

/-- Both are read again, and a message without `meta` ends the program. -/
def restarted : List Event :=
  [.start 9000000, .next 0 10000000, .next 0 11000000, .produce 0 .incomplete,
    .next 0 12000000]

/-- The row of the first message is in the table, once. -/
theorem table_loaded_restarted : ∃ s s' : Dump,
    s.table.map primaryKey = [(some 7, some 0)] ∧
    s'.table.map primaryKey = [(some 7, some 0)] ∧
    ∃ n n', (∀ p, n p ≤ n' p) ∧ Loaded (fun _ => true) s.log n s.table ∧
      Loaded (fun _ => true) s'.log n' s'.table ∧ s.table ⊆ s'.table ∧
      ∀ q, (∀ p, p ≠ q → s'.log p = []) → n' q = 0 ∨ n' q < (s'.log q).length := by
  have hkeys : ((exec (step (fun _ => true) fun _ => true) empty killed).bind fun s =>
      (exec (step (fun _ => true) fun _ => true) s restarted).map fun s' =>
        (s.table.map primaryKey, s'.table.map primaryKey))
      = some ([(some 7, some 0)], [(some 7, some 0)]) := by
    decide +kernel
  obtain ⟨s, hrun, hrest⟩ := Option.bind_eq_some_iff.mp hkeys
  obtain ⟨s', hrun', hrows⟩ := Option.map_eq_some_iff.mp hrest
  obtain ⟨hfirst, hsecond⟩ := Prod.mk.inj hrows
  exact ⟨s, s', hfirst, hsecond, table_loaded hrun hrun'⟩

end Dump

end

end FanucDriver.Debug
