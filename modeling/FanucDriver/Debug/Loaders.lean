import FanucDriver.Lib.Json
import FanucDriver.Lib.Overlay

/-!
# The loaders of `"input-avro"`

`consumer.py` and `dump.py` insert the messages of the topic into the same table. Both
write some columns as JSON texts. `dump.py` does so once, in the list of its columns;
`consumer.py` does so for the members of `values`, and again for the columns of the row.

`sameRow_iff`: the two write the same row exactly if `values` has none of these columns, no
column is named twice, and the columns take the values of `dump.py`.

Mirroring notes:
- `json.loads` makes a dict of an object: the keys of `meta` and `values` are distinct.
- A number is the text that `json.dumps` writes for it, which reads back as the same number.
- A statement that names a column twice raises an error, and so does a value that its column
  does not take (`accepts`).
-/

namespace FanucDriver.Debug

open FanucDriver.Lib FanucDriver.Lib.Json

/-! ## `json.dumps` -/

/-- A character of a string; anything but printable ASCII is escaped. -/
def ensureAscii (c : Char) : List Char :=
  if c = '"' then ['\\', '"']
  else if c = '\\' then ['\\', '\\']
  else if c = '\n' then ['\\', 'n']
  else if c = '\r' then ['\\', 'r']
  else if c = '\t' then ['\\', 't']
  else if c = '\x0c' then ['\\', 'f']
  else if c = '\x08' then ['\\', 'b']
  else if 0x20 ≤ c.toNat ∧ c.toNat ≤ 0x7e then [c]
  else if c.toNat < 0x10000 then unicodeEscape c
  else surrogatePair c

theorem ensureAscii_reads (c : Char) (s : List Char) :
    readChar (ensureAscii c ++ s) = some (c, s) := by
  unfold ensureAscii
  split_ifs with hquote hslash hnewline hreturn htab hfeed hback hplain hbasic
  · subst hquote; rfl
  · subst hslash; rfl
  · subst hnewline; rfl
  · subst hreturn; rfl
  · subst htab; rfl
  · subst hfeed; rfl
  · subst hback; rfl
  · exact readChar_plain hquote hslash hplain.1 s
  · exact readChar_unicodeEscape hbasic s
  · exact readChar_surrogatePair (by omega) s

def dumpsStyle : Style where
  escape := ensureAscii
  comma := [' ']
  colon := [' ']
  escape_reads := ensureAscii_reads
  comma_blank := rfl
  colon_blank := rfl

/-- `json.dumps(v)` -/
def dumps (v : Json Token) : Json Token := .string (print dumpsStyle v)

/-! ## Messages and rows -/

abbrev Items := List (List Char × Json Token)

/-- A message of the topic, with the members of its value. -/
structure Message where
  key : List Char
  offset : ℤ
  timestamp : ℤ
  partition : ℤ
  meta_ : Items
  values : Items
  meta_nodup : (meta_.map Prod.fst).Nodup
  values_nodup : (values.map Prod.fst).Nodup

/-- The lines of `table.txt`. -/
def columns : List (List Char) :=
    ["machine_id", "offset", "timestamp", "partition", "max_axis", "addinfo", "cnc_type",
    "mt_type", "series", "version", "axes_count_chk", "axes_count", "ether_type", "ether_device",
    "axes", "alarm", "hdck", "tool_group", "message_number", "message_text", "mprogram",
    "part_count", "mode", "estop", "aut", "emergency", "run", "execution", "tool_id", "sequence",
    "cprogram", "program_number", "program_header", "mstb", "edit", "block", "motion", "actf",
    "acts", "actual", "relative", "absolute", "load", "meta_part_count", "meta_status",
    "meta_tool", "meta_dynamic", "meta_message", "meta_block", "meta_total", "meta_cycle_time",
    "program_name_alt", "program_path_alt", "cycle_time", "program_number_alt", "meta_info",
    "meta_program", "block_num", "meta_program_name", "program_path", "program_name", "program",
    "program_size", "meta_program_header"].map String.toList

def transformers : List (List Char) :=
  ["axes", "actual", "relative", "absolute", "load"].map String.toList

/-- `transformers.get(k)`, applied to the value where there is one. -/
def transform (k : List Char) (v : Json Token) : Json Token :=
  if k ∈ transformers then dumps v else v

def fixedItems (msg : Message) : Items :=
  [("machine_id".toList, .string msg.key), ("offset".toList, .number (.ofInt msg.offset)),
    ("timestamp".toList, .number (.ofInt msg.timestamp)),
    ("partition".toList, .number (.ofInt msg.partition))]

/-- `[(f"meta_{k}", v) for k, v in meta.items()]` -/
def metaItems (msg : Message) : Items := msg.meta_.map fun x => ("meta_".toList ++ x.1, x.2)

/-! ## `consumer.py` -/

/-- The pairs that `dict` makes `obj` of; of a key it keeps the last value. -/
def objItems (msg : Message) : Items :=
  fixedItems msg ++ metaItems msg ++ msg.values.map fun x => (x.1, transform x.1 x.2)

/-- The entry of a column, `None` as `null`. -/
def entry (msg : Message) (k : List Char) : Json Token :=
  match overlay (objItems msg) k with
  | none => .null
  | some .null => .null
  | some v => transform k v

def tr (msg : Message) : List (Json Token) := columns.map (entry msg)

/-! ## `dump.py` -/

def dumpItems (msg : Message) : Items :=
  ((fixedItems msg ++ metaItems msg ++ msg.values).filter fun x => x.1 ∈ columns).map
    fun x => (x.1, transform x.1 x.2)

/-- `cur.execute(q, values)`: the columns that are written; an error if one is named twice,
or does not take its value. -/
def execute (accepts : Items → Bool) (items : Items) : Option Items :=
  if (items.map Prod.fst).Nodup ∧ accepts items then some items else none

/-- What is written to a column. -/
def written (items : Items) (c : List Char) : Json Token := (overlay items c).getD .null

/-! ## The same row -/

/-- What the two loaders are to do with a message. -/
def SameRow (accepts : Items → Bool) (msg : Message) : Prop :=
  ∃ items, execute accepts (dumpItems msg) = some items ∧
    tr msg = columns.map (written items) ∧
    ∀ c ∈ transformers, ∀ xs, (c, Json.array xs) ∈ msg.values →
      ∃ text, written items c = .string text ∧ parse text = some (.array xs)

/-- No two items name one column. -/
def NamedOnce (msg : Message) : Prop :=
  ∀ k ∈ msg.values.map Prod.fst, k ∈ columns →
    k ∉ (fixedItems msg).map Prod.fst ∧ k ∉ (metaItems msg).map Prod.fst

/-- No column of JSON texts is a member of `values`. -/
def Uncoded (msg : Message) : Prop := ∀ c ∈ transformers, c ∉ msg.values.map Prod.fst

/-! ## The items -/

/-- The items before anything is encoded. -/
def rawItems (msg : Message) : Items := fixedItems msg ++ metaItems msg ++ msg.values

theorem meta_notMem_transformers (k : List Char) : "meta_".toList ++ k ∉ transformers := by
  simp [transformers]

theorem fixed_notMem_transformers (msg : Message) :
    ∀ x ∈ fixedItems msg, x.1 ∉ transformers := by
  simp [fixedItems, transformers]

theorem fixed_ne_meta (msg : Message) (k : List Char) :
    "meta_".toList ++ k ∉ (fixedItems msg).map Prod.fst := by
  simp [fixedItems]

theorem meta_items_notMem_transformers (msg : Message) :
    ∀ x ∈ metaItems msg, x.1 ∉ transformers := by
  intro x hx
  obtain ⟨y, -, rfl⟩ := List.mem_map.mp hx
  exact meta_notMem_transformers y.1

theorem map_transform_of_notMem {items : Items} (h : ∀ x ∈ items, x.1 ∉ transformers) :
    items.map (fun x => (x.1, transform x.1 x.2)) = items := by
  refine (List.map_congr_left fun x hx => ?_).trans (List.map_id items)
  rw [transform, if_neg (h x hx)]
  rfl

/-- Only members of `values` are encoded. -/
theorem objItems_eq (msg : Message) :
    objItems msg = (rawItems msg).map fun x => (x.1, transform x.1 x.2) := by
  rw [rawItems, List.map_append, List.map_append,
    map_transform_of_notMem (fixed_notMem_transformers msg),
    map_transform_of_notMem (meta_items_notMem_transformers msg)]
  rfl

/-- Columns of JSON texts come from `values`. -/
theorem overlay_rawItems_eq_none_iff (msg : Message) {c : List Char} (hc : c ∈ transformers) :
    overlay (rawItems msg) c = none ↔ c ∉ msg.values.map Prod.fst := by
  have hfixed : ∀ x ∈ fixedItems msg, x.1 ≠ c := fun x hx heq =>
    fixed_notMem_transformers msg x hx (heq ▸ hc)
  have hmeta : ∀ x ∈ metaItems msg, x.1 ≠ c := fun x hx heq =>
    meta_items_notMem_transformers msg x hx (heq ▸ hc)
  rw [overlay_eq_none_iff]
  constructor
  · intro h hmem
    obtain ⟨x, hx, hxc⟩ := List.mem_map.mp hmem
    exact h x (List.mem_append_right _ hx) hxc
  · intro h x hx hxc
    rcases List.mem_append.mp hx with hx | hx
    · rcases List.mem_append.mp hx with hx | hx
      · exact hfixed x hx hxc
      · exact hmeta x hx hxc
    · exact h (List.mem_map.mpr ⟨x, hx, hxc⟩)

/-- The columns that `dump.py` names. -/
theorem map_fst_dumpItems (msg : Message) :
    (dumpItems msg).map Prod.fst = ((rawItems msg).map Prod.fst).filter (· ∈ columns) := by
  rw [dumpItems, List.map_map, List.filter_map]
  rfl

theorem nodup_dumpItems_iff (msg : Message) :
    ((dumpItems msg).map Prod.fst).Nodup ↔ NamedOnce msg := by
  have hfixed : ((fixedItems msg).map Prod.fst).Nodup := by
    simp [fixedItems]
  have hmeta : ((metaItems msg).map Prod.fst).Nodup := by
    have hmap : (metaItems msg).map Prod.fst
        = (msg.meta_.map Prod.fst).map ("meta_".toList ++ ·) := by
      rw [metaItems, List.map_map, List.map_map]
      rfl
    rw [hmap]
    exact msg.meta_nodup.map fun _ _ h => List.append_cancel_left h
  have hapart : ∀ k ∈ (fixedItems msg).map Prod.fst, k ∉ (metaItems msg).map Prod.fst := by
    intro k hk hk'
    obtain ⟨x, hx, rfl⟩ := List.mem_map.mp hk'
    obtain ⟨y, -, rfl⟩ := List.mem_map.mp hx
    exact fixed_ne_meta msg y.1 hk
  rw [map_fst_dumpItems, rawItems, List.map_append, List.map_append, List.filter_append,
    List.filter_append, List.nodup_append, List.nodup_append]
  constructor
  · intro h k hk hcolumn
    obtain ⟨-, -, hvalues⟩ := h
    have hk' : k ∈ (msg.values.map Prod.fst).filter (· ∈ columns) :=
      List.mem_filter.mpr ⟨hk, decide_eq_true hcolumn⟩
    refine ⟨fun hfix => ?_, fun hmet => ?_⟩
    · refine hvalues k (List.mem_append_left _ ?_) k hk' rfl
      exact List.mem_filter.mpr ⟨hfix, decide_eq_true hcolumn⟩
    · refine hvalues k (List.mem_append_right _ ?_) k hk' rfl
      exact List.mem_filter.mpr ⟨hmet, decide_eq_true hcolumn⟩
  · intro h
    refine ⟨⟨hfixed.filter _, hmeta.filter _, ?_⟩, msg.values_nodup.filter _, ?_⟩
    · intro k hk k' hk' heq
      exact hapart k (List.mem_filter.mp hk).1 (heq ▸ (List.mem_filter.mp hk').1)
    · intro k hk k' hk' heq
      obtain ⟨hk', hcolumn⟩ := List.mem_filter.mp hk'
      obtain ⟨hfix, hmet⟩ := h k' hk' (of_decide_eq_true hcolumn)
      subst heq
      rcases List.mem_append.mp hk with hk | hk
      · exact hfix (List.mem_filter.mp hk).1
      · exact hmet (List.mem_filter.mp hk).1

theorem execute_eq_some_iff {accepts : Items → Bool} {items items' : Items} :
    execute accepts items = some items' ↔
      (items.map Prod.fst).Nodup ∧ accepts items ∧ items' = items := by
  unfold execute
  split
  next h =>
    exact ⟨fun heq => ⟨h.1, h.2, (Option.some.inj heq).symm⟩, fun heq => congrArg some heq.2.2.symm⟩
  next h =>
    exact ⟨fun heq => absurd heq.symm (Option.some_ne_none _),
      fun heq => absurd ⟨heq.1, heq.2.1⟩ h⟩

/-! ## The columns -/

/-- What `dump.py` has for a column: its value, encoded once. -/
theorem written_dumpItems (msg : Message) {c : List Char} (hc : c ∈ columns) :
    written (dumpItems msg) c = ((overlay (rawItems msg) c).map (transform c)).getD .null := by
  have hmap := overlay_map (g := id) Function.injective_id transform
    ((rawItems msg).filter fun x => x.1 ∈ columns) c
  rw [overlay_filter (p := fun k => decide (k ∈ columns)) (decide_eq_true hc)] at hmap
  exact congrArg (Option.getD · .null) hmap

/-- What `consumer.py` has for a column. -/
theorem overlay_objItems (msg : Message) (c : List Char) :
    overlay (objItems msg) c = (overlay (rawItems msg) c).map (transform c) := by
  rw [objItems_eq]
  exact overlay_map (g := id) Function.injective_id transform (rawItems msg) c

/-- A text that is encoded once more is another text. -/
theorem dumps_dumps_ne (v : Json Token) : dumps (dumps v) ≠ dumps v := by
  intro h
  have hlength := length_lt_print_string dumpsStyle (print dumpsStyle v)
  have htext := Json.string.inj h
  unfold dumps at htext
  rw [htext] at hlength
  exact Nat.lt_irrefl _ hlength

/-- **One column**: the loaders agree unless it is a column of JSON texts that `values` has. -/
theorem entry_eq_written_iff (msg : Message) {c : List Char} (hc : c ∈ columns) :
    entry msg c = written (dumpItems msg) c ↔
      (c ∈ transformers → c ∉ msg.values.map Prod.fst) := by
  rw [written_dumpItems msg hc, entry, overlay_objItems]
  by_cases hcoded : c ∈ transformers
  · rw [← overlay_rawItems_eq_none_iff msg hcoded]
    cases overlay (rawItems msg) c with
    | none => exact iff_of_true rfl fun _ => rfl
    | some v =>
      refine iff_of_false (fun h => ?_) fun h => absurd (h hcoded) (Option.some_ne_none v)
      have htransform : ∀ u, transform c u = dumps u := fun u => if_pos hcoded
      rw [Option.map_some, Option.getD_some, htransform] at h
      exact dumps_dumps_ne v ((htransform _).symm.trans h)
  · refine iff_of_true ?_ fun h => absurd h hcoded
    have htransform : ∀ u, transform c u = u := fun u => if_neg hcoded
    cases overlay (rawItems msg) c with
    | none => rfl
    | some v =>
      rw [Option.map_some, Option.getD_some, htransform]
      cases v <;> first | rfl | exact htransform _

/-- A column of JSON texts that `values` has: the text that `dump.py` writes reads back as
the value, the one of `consumer.py` as that text. -/
theorem coded_column (msg : Message) {c : List Char} (hc : c ∈ columns) (hcoded : c ∈ transformers)
    (hmem : c ∈ msg.values.map Prod.fst) :
    ∃ v text text', (c, v) ∈ rawItems msg ∧
      written (dumpItems msg) c = .string text ∧ parse text = some v ∧
      entry msg c = .string text' ∧ parse text' = some (.string text) := by
  have htransform : ∀ u, transform c u = dumps u := fun u => if_pos hcoded
  have hheld : overlay (rawItems msg) c ≠ none := fun h =>
    (overlay_rawItems_eq_none_iff msg hcoded).mp h hmem
  obtain ⟨v, hv⟩ := Option.ne_none_iff_exists'.mp hheld
  refine ⟨v, print dumpsStyle v, print dumpsStyle (dumps v), overlay_mem hv, ?_,
    parse_print dumpsStyle v, ?_, parse_print dumpsStyle (dumps v)⟩
  · rw [written_dumpItems msg hc, hv, Option.map_some, htransform]
    rfl
  · rw [entry, overlay_objItems, hv, Option.map_some, htransform]
    exact htransform (dumps v)

theorem transformers_subset_columns : ∀ c ∈ transformers, c ∈ columns := by
  decide

/-- **The two loaders write the same row** exactly if `values` has no column of JSON texts,
no column is named twice and the columns take their values. -/
theorem sameRow_iff (accepts : Items → Bool) (msg : Message) :
    SameRow accepts msg ↔ Uncoded msg ∧ NamedOnce msg ∧ accepts (dumpItems msg) := by
  constructor
  · intro h
    obtain ⟨items, hexecute, hrow, -⟩ := h
    obtain ⟨hnodup, haccepts, rfl⟩ := execute_eq_some_iff.mp hexecute
    refine ⟨fun c hc => ?_, (nodup_dumpItems_iff msg).mp hnodup, haccepts⟩
    have hcolumn := transformers_subset_columns c hc
    exact (entry_eq_written_iff msg hcolumn).mp (List.map_inj_left.mp hrow c hcolumn) hc
  · intro h
    obtain ⟨huncoded, honce, haccepts⟩ := h
    have hexecute := execute_eq_some_iff.mpr
      ⟨(nodup_dumpItems_iff msg).mpr honce, haccepts, rfl⟩
    refine ⟨dumpItems msg, hexecute, ?_, ?_⟩
    · exact List.map_congr_left fun c hc =>
        (entry_eq_written_iff msg hc).mpr fun hcoded => huncoded c hcoded
    · intro c hc xs hmem
      exact absurd (List.mem_map_of_mem (f := Prod.fst) hmem) (huncoded c hc)

/-- A message with a load of 12. -/
def loadMessage : Message where
  key := "lathe".toList
  offset := 7
  timestamp := 1600000000000
  partition := 0
  meta_ := [("total".toList, .number (.ofInt 900))]
  values := [("load".toList, .array [.number (.ofInt 12)])]
  meta_nodup := List.nodup_singleton _
  values_nodup := List.nodup_singleton _

/-- Its load is encoded twice by `consumer.py`. -/
theorem loadMessage_not_sameRow : ¬SameRow (fun _ => true) loadMessage := by
  intro h
  obtain ⟨items, hexecute, hrow, -⟩ := h
  have hitems : items = dumpItems loadMessage := (execute_eq_some_iff.mp hexecute).2.2
  have hcolumn : "load".toList ∈ columns := by decide
  have hentry := List.map_inj_left.mp hrow _ hcolumn
  rw [hitems] at hentry
  have htexts : "\"[12]\"".toList = "[12]".toList := Json.string.inj hentry
  exact absurd htexts (by decide)

end FanucDriver.Debug
