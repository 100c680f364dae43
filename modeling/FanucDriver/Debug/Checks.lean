import FanucDriver.Lib.Window
import FanucDriver.Streams.Staging
import Mathlib.Algebra.Order.Ring.Int

/-!
# The checks of the debug tool

`debug/main.py` sends every message to checks that print what they have counted.
`check_execution_changes` prints a machine's changes of execution;
`check_execution_counts` prints how often each execution came to an end, and how long it
took on average.

`checkExecutionChanges_eq`: the changes are the records that `Staging.kt` lets through,
each with the one before. `checkExecutionCounts_closings`: the counts are those of the
intervals of `Staging.kt`, but the times are not. The check keeps the time of the newest
repeat of an execution where the stream keeps that of its first record, so the time from
the first record of a run to its last one is missing.

Mirroring notes:
- A message is what `json.loads` makes of its value: the key, the timestamp, and the
  execution, which may be missing or `null`.
- With every change the tool prints the whole table; here it is the entry that changed.
- The totals are doubles, exact to 2^53 milliseconds; here they are integers.
- `i` is not read.
-/

namespace FanucDriver.Debug

open FanucDriver.Streams FanucDriver.Lib FanucDriver.Lib.Window FanucDriver.Lib.Transducer

/-! ## The changes -/

/-- An entry of `d`: the execution before, the execution, and when it started. -/
structure Change where
  a : Option JString
  b : JString
  t : Int64
  deriving DecidableEq

def checkExecutionChanges :
    Transducer (KeyValueStore JString Change) (JString × Sample) (JString × Change) :=
  fun d (k, v) =>
    match v.execution with
    | none => (d, none)
    | some n =>
      let b := (d k).map (·.b)
      if some n ≠ b then
        let e : Change := { a := b, b := n, t := v.timestamp }
        (d.put k e, some (k, e))
      else (d, none)

/-! ## The counts -/

/-- The state of the check: `d` and `dd`. -/
structure Counts where
  d : KeyValueStore JString (Option (JString × Int64) × JString × Int64)
  dd : JString → ℕ × ℤ

def Counts.init : Counts where
  d := fun _ => none
  dd := fun _ => (0, 0)

def checkExecutionCounts (s : Counts) : JString × Sample → Counts
  | (k, v) =>
    match v.execution with
    | none => s
    | some next_exec =>
      match s.d k with
      | none => { s with d := s.d.put k (none, next_exec, v.timestamp) }
      | some (a, last_exec, last_ts) =>
        if last_exec = next_exec then { s with d := s.d.put k (a, next_exec, v.timestamp) }
        else {
          d := s.d.put k (some (last_exec, last_ts), next_exec, v.timestamp)
          dd := Function.update s.dd last_exec
            ((s.dd last_exec).1 + 1, (s.dd last_exec).2 + (v.timestamp.toInt - last_ts.toInt)) }

/-- The check after some messages. -/
def counted (xs : List (JString × Sample)) : Counts := xs.foldl checkExecutionCounts Counts.init

theorem counted_concat (xs : List (JString × Sample)) (x : JString × Sample) :
    counted (xs ++ [x]) = checkExecutionCounts (counted xs) x := by
  simp [counted]

/-! ## What they see -/

/-- The executions of the messages, an empty one too. -/
def seen (x : JString × Sample) : Option (JString × ExecutionDatum) :=
  x.2.execution.map fun execution =>
    (x.1, { machineId := x.2.machineId
            execution := execution
            timestamp := x.2.timestamp
            partition := x.2.partition
            offset := x.2.offset })

/-- Where no execution is empty, the stream sees the same. -/
theorem project_seen {xs : List (JString × Sample)} (h : ∀ x ∈ xs, x.2.execution ≠ some [])
    (machine : JString) : project machine (xs.filterMap seen) = executionHistory machine xs := by
  have hseen : xs.filterMap seen
      = xs.filterMap fun x => (executionDatum x.2).map fun value => (x.1, value) := by
    refine List.filterMap_congr fun x hx => ?_
    unfold seen executionDatum
    cases hexecution : x.2.execution with
    | none => rfl
    | some execution =>
      have hne : execution ≠ [] := fun hnil => h x hx (hnil ▸ hexecution)
      have hfull : isNullOrEmpty (some execution) = false := by
        cases execution with
        | nil => exact absurd rfl hne
        | cons c execution => rfl
      rw [hfull]
      rfl
  rw [hseen, project_filterMap]
  rfl

/-! ## One machine: the changes -/

/-- The changes of one machine. -/
def change : Transducer (Option Change) ExecutionDatum Change := fun e x =>
  if e.map (·.b) = some x.execution then (e, none)
  else
    let next : Change := { a := e.map (·.b), b := x.execution, t := x.timestamp }
    (some next, some next)

theorem checkExecutionChanges_keyed :
    checkExecutionChanges = (keyed fun _ => change).after seen := by
  funext d x
  obtain ⟨k, ⟨machineId, execution, timestamp, partition, offset⟩⟩ := x
  unfold checkExecutionChanges after seen
  cases execution with
  | none => rfl
  | some n =>
    simp only [Option.map_some, keyed, change, ne_eq]
    by_cases h : (d k).map (·.b) = some n
    · rw [if_neg (not_not_intro h.symm), if_pos h]
      simp
    · rw [if_pos (fun hn => h hn.symm), if_neg h]
      rfl

/-- The change to a record, from the one before. -/
def changeTo (x : ExecutionDatum × Option JString) : Change where
  a := x.2
  b := x.1.execution
  t := x.1.timestamp

/-- **The changes of one machine**: the records that are no repeats, each with the execution
of the one before. -/
theorem run_change (as : List ExecutionDatum) :
    change.run none as
        = (lagged (·.execution)
            ((dedup fun v : ExecutionDatum => some v.execution).run none as)).map changeTo ∧
      (change.final none as).map (·.b) = as.getLast?.map (·.execution) ∧
      ((dedup fun v : ExecutionDatum => some v.execution).run none as).getLast?.map (·.execution)
        = as.getLast?.map (·.execution) := by
  induction as using List.reverseRecOn with
  | nil => exact ⟨rfl, rfl, rfl⟩
  | append_singleton as x ih =>
    obtain ⟨hrun, hfinal, hlast⟩ := ih
    have hstate : (dedup fun v : ExecutionDatum => some v.execution).final none as
        = as.getLast?.map (·.execution) := by
      rw [final_dedup, Option.or_none, ← List.getLast?_map]
      exact congrArg List.getLast? (congrFun List.filterMap_eq_map _)
    have hnext : change.final none (as ++ [x]) = (change (change.final none as) x).1 := by
      simp [final]
    rw [run_concat, run_concat, hnext, hrun, List.getLast?_concat, hstate]
    by_cases h : as.getLast?.map (·.execution) = some x.execution
    · have hdedup : dedup (fun v : ExecutionDatum => some v.execution)
          (as.getLast?.map (·.execution)) x = (as.getLast?.map (·.execution), none) := if_pos h
      have hchange : change (change.final none as) x = (change.final none as, none) :=
        if_pos (hfinal.trans h)
      rw [hdedup, hchange]
      simp only [Option.toList_none, List.append_nil, Option.map_some]
      exact ⟨trivial, hfinal.trans h, hlast.trans h⟩
    · have hdedup : dedup (fun v : ExecutionDatum => some v.execution)
          (as.getLast?.map (·.execution)) x = (some x.execution, some x) := if_neg h
      have hchange : change (change.final none as) x
          = (some (changeTo (x, as.getLast?.map (·.execution))),
              some (changeTo (x, as.getLast?.map (·.execution)))) := by
        rw [← hfinal] at h ⊢
        exact if_neg h
      rw [hdedup, hchange]
      simp only [Option.toList_some, Option.map_some]
      refine ⟨?_, rfl, ?_⟩
      · rw [lagged_concat, List.map_append, hlast]
        rfl
      · rw [List.getLast?_concat, Option.map_some]

/-- **The changes** of a machine are the records that `Staging.kt` lets through, each with
the execution of the one before. -/
theorem checkExecutionChanges_eq {xs : List (JString × Sample)}
    (h : ∀ x ∈ xs, x.2.execution ≠ some []) (machine : JString) :
    project machine (checkExecutionChanges.run (fun _ => none) xs)
      = (lagged (·.execution)
          (project machine (executions.run (fun _ => none) xs))).map changeTo := by
  rw [checkExecutionChanges_keyed, run_after, project_run_keyed, project_seen h,
    project_executions, (run_change _).1]

/-! ## One machine: the counts -/

/-- What ends with a record of another execution: the execution, and its time since the
record before. -/
def closed (last x : ExecutionDatum) : JString × ℤ :=
  (last.execution, x.timestamp.toInt - last.timestamp.toInt)

/-- What the records of one machine bring to an end. -/
def closing : Transducer (Option ExecutionDatum) ExecutionDatum (JString × ℤ) := fun last x =>
  (some x, last.bind fun l => if l.execution = x.execution then none else some (closed l x))

/-- What the messages bring to an end, with the machine. -/
def closings (xs : List (JString × Sample)) : List (JString × JString × ℤ) :=
  (keyed fun _ => closing).run (fun _ => none) (xs.filterMap seen)

/-- How often an execution comes to an end, and its time. -/
def tally (e : JString) (cs : List (JString × ℤ)) : ℕ × ℤ :=
  ((cs.filter fun c => c.1 = e).length, ((cs.filter fun c => c.1 = e).map (·.2)).sum)

theorem tally_cons (e : JString) (c : JString × ℤ) (cs : List (JString × ℤ)) :
    tally e (c :: cs)
      = if c.1 = e then ((tally e cs).1 + 1, c.2 + (tally e cs).2) else tally e cs := by
  unfold tally
  rw [List.filter_cons]
  by_cases h : c.1 = e
  · rw [if_pos (decide_eq_true h), if_pos h]
    rfl
  · rw [if_neg (by simpa using h), if_neg h]

theorem tally_concat (e : JString) (cs : List (JString × ℤ)) (c : JString × ℤ) :
    tally e (cs ++ [c])
      = if c.1 = e then ((tally e cs).1 + 1, (tally e cs).2 + c.2) else tally e cs := by
  induction cs with
  | nil =>
    rw [List.nil_append, tally_cons]
    split <;> simp [tally]
  | cons b cs ih =>
    rw [List.cons_append, tally_cons, ih, tally_cons]
    by_cases hb : b.1 = e <;> by_cases hc : c.1 = e <;> simp [hb, hc, Int.add_assoc]

/-- `d` holds the last record of each machine, and `dd` the tally of what has ended. -/
structure Tallies (xs : List (JString × Sample)) (s : Counts) : Prop where
  d : ∀ k, (s.d k).map (·.2)
    = ((keyed fun _ => closing).final (fun _ => none) (xs.filterMap seen) k).map
        fun x => (x.execution, x.timestamp)
  dd : ∀ e, s.dd e = tally e ((closings xs).map Prod.snd)

/-- A message without an execution changes nothing. -/
theorem checkExecutionCounts_none {x : JString × Sample} (h : seen x = none) (s : Counts) :
    checkExecutionCounts s x = s := by
  obtain ⟨k, v⟩ := x
  have hexecution : v.execution = none := Option.map_eq_none_iff.mp h
  unfold checkExecutionCounts
  simp only [hexecution]

/-- A message with one, from the last record of its machine. -/
theorem checkExecutionCounts_some {x : JString × Sample} {k : JString} {v : ExecutionDatum}
    (h : seen x = some (k, v)) (s : Counts) :
    (∀ k', ((checkExecutionCounts s x).d k').map (·.2)
      = if k' = k then some (v.execution, v.timestamp) else (s.d k').map (·.2)) ∧
    (checkExecutionCounts s x).dd =
      match (s.d k).map (·.2) with
      | none => s.dd
      | some (last_exec, last_ts) =>
        if last_exec = v.execution then s.dd
        else Function.update s.dd last_exec
          ((s.dd last_exec).1 + 1, (s.dd last_exec).2 + (v.timestamp.toInt - last_ts.toInt)) := by
  obtain ⟨k', ⟨machineId, executed, timestamp, partition, offset⟩⟩ := x
  obtain ⟨execution, hexecution, heq⟩ := Option.map_eq_some_iff.mp h
  obtain rfl : executed = some execution := hexecution
  obtain ⟨rfl, rfl⟩ := Prod.mk.inj heq
  have hput : ∀ (d : KeyValueStore JString (Option (JString × Int64) × JString × Int64)) a k'',
      ((d.put k' (a, execution, timestamp)) k'').map (·.2)
        = if k'' = k' then some (execution, timestamp) else (d k'').map (·.2) := by
    intro d a k''
    unfold KeyValueStore.put
    by_cases hk : k'' = k'
    · rw [if_pos hk, hk, Function.update_self]
      rfl
    · rw [if_neg hk, Function.update_of_ne hk]
  unfold checkExecutionCounts
  simp only
  cases hd : s.d k' with
  | none => exact ⟨hput s.d none, rfl⟩
  | some e =>
    obtain ⟨a, last_exec, last_ts⟩ := e
    simp only [Option.map_some]
    by_cases hexec : last_exec = execution
    · simp only [if_pos hexec]
      exact ⟨hput s.d a, trivial⟩
    · simp only [if_neg hexec]
      exact ⟨hput s.d _, trivial⟩

theorem tallies_counted (xs : List (JString × Sample)) : Tallies xs (counted xs) := by
  induction xs using List.reverseRecOn with
  | nil => exact ⟨fun k => rfl, fun e => rfl⟩
  | append_singleton xs x ih =>
    obtain ⟨hd, hdd⟩ := ih
    rw [counted_concat]
    cases hx : seen x with
    | none =>
      have hseen : (xs ++ [x]).filterMap seen = xs.filterMap seen := by
        rw [List.filterMap_append, List.filterMap_cons_none hx]
        exact List.append_nil _
      rw [checkExecutionCounts_none hx]
      exact ⟨fun k => by rw [hseen]; exact hd k, fun e => by rw [closings, hseen]; exact hdd e⟩
    | some y =>
      obtain ⟨k, v⟩ := y
      have hseen : (xs ++ [x]).filterMap seen = xs.filterMap seen ++ [(k, v)] := by
        rw [List.filterMap_append, List.filterMap_cons_some hx]
        rfl
      obtain ⟨hstep, htotals⟩ := checkExecutionCounts_some hx (counted xs)
      constructor
      · intro k'
        have hfinal : (keyed fun _ => closing).final (fun _ => none) (xs.filterMap seen ++ [(k, v)])
            = (keyed (fun _ => closing) ((keyed fun _ => closing).final (fun _ => none)
                (xs.filterMap seen)) (k, v)).1 := by
          simp [final]
        rw [hstep, hseen, hfinal]
        by_cases hk : k' = k
        · rw [if_pos hk, hk, keyed_self]
          rfl
        · rw [if_neg hk, keyed_ne (Ne.symm hk), hd]
      · intro e
        rw [htotals, closings, hseen, run_concat, List.map_append, ← closings]
        have hlast := hd k
        have hout : (keyed (fun _ => closing) ((keyed fun _ => closing).final (fun _ => none)
            (xs.filterMap seen)) (k, v)).2
            = ((closing ((keyed fun _ => closing).final (fun _ => none)
                (xs.filterMap seen) k) v).2).map fun c => (k, c) := rfl
        rw [hout, hlast]
        cases (keyed fun _ => closing).final (fun _ => none) (xs.filterMap seen) k with
        | none =>
          rw [Option.map_none]
          simpa [closing] using hdd e
        | some last =>
          simp only [Option.map_some, closing, Option.bind_some]
          by_cases hexec : last.execution = v.execution
          · rw [if_pos hexec, if_pos hexec]
            simpa using hdd e
          · rw [if_neg hexec, if_neg hexec]
            simp only [Option.map_some, Option.toList_some, List.map_cons, List.map_nil]
            rw [tally_concat]
            by_cases he : e = last.execution
            · have hclosed : (closed last v).1 = last.execution := rfl
              rw [he, Function.update_self, if_pos hclosed, ← hdd]
              rfl
            · rw [Function.update_of_ne he, if_neg fun h => he h.symm, ← hdd]

/-! ## Against the intervals -/

/-- A run that goes on ends nothing. -/
theorem run_closing_same {v : JString} {r : List ExecutionDatum} (hr : ∀ x ∈ r, x.execution = v)
    {last : ExecutionDatum} (hlast : last.execution = v) (as : List ExecutionDatum) :
    closing.run (some last) (r ++ as) = closing.run (some (r.getLast?.getD last)) as := by
  induction r generalizing last with
  | nil => rfl
  | cons x r ih =>
    have hx := hr x List.mem_cons_self
    have hstep : closing (some last) x = (some x, none) := by
      unfold closing
      rw [Option.bind_some, if_pos (hlast.trans hx.symm)]
    rw [List.cons_append, run_cons, hstep, Option.toList_none, List.nil_append,
      ih (fun y hy => hr y (List.mem_cons_of_mem x hy)) hx, List.getLast?_cons]
    rfl

/-- **What runs bring to an end**: each but the last one, from its last record to the first
record of the next one. -/
theorem run_closing_runs {a : ExecutionDatum} {r : List ExecutionDatum}
    {rs : List (List ExecutionDatum)} (hne : [] ∉ rs)
    (hsame : ∀ q ∈ (a :: r) :: rs, ∀ x ∈ q, ∀ y ∈ q, x.execution = y.execution)
    (hdiff : ((a :: r) :: rs).IsChain fun q q' => ∀ x ∈ q, ∀ y ∈ q', x.execution ≠ y.execution) :
    closing.run (some a) (r ++ rs.flatten)
      = List.zipWith closed (lasts ((a :: r) :: rs)) (firsts rs) := by
  induction rs generalizing a r with
  | nil =>
    rw [run_closing_same (fun x hx => hsame _ List.mem_cons_self x (List.mem_cons_of_mem a hx) a
      List.mem_cons_self) rfl]
    exact List.zipWith_nil_right.symm
  | cons q rs ih =>
    obtain ⟨b, q, rfl⟩ := List.exists_cons_of_ne_nil
      (show q ≠ [] from fun h => hne (h ▸ List.mem_cons_self))
    have hend := getLast?_getD_mem a r
    have hstep : closing (some (r.getLast?.getD a)) b
        = (some b, some (closed (r.getLast?.getD a) b)) := by
      unfold closing
      have hne := (List.isChain_cons_cons.mp hdiff).1 _ hend b List.mem_cons_self
      rw [Option.bind_some, if_neg hne]
    rw [run_closing_same (fun x hx => hsame _ List.mem_cons_self x (List.mem_cons_of_mem a hx) a
      List.mem_cons_self) rfl, List.flatten_cons, List.cons_append, run_cons, hstep, lasts_cons,
      ih (fun h => hne (List.mem_cons_of_mem _ h))
        (fun q' hq' => hsame q' (List.mem_cons_of_mem _ hq')) hdiff.tail]
    rfl

theorem run_closing {as : List ExecutionDatum} {rs : List (List ExecutionDatum)}
    (h : MaximalRuns ExecutionDatum.execution as rs) :
    closing.run none as = List.zipWith closed (lasts rs) (firsts rs).tail := by
  obtain ⟨rfl, hne, hsame, hdiff⟩ := h
  cases rs with
  | nil => rfl
  | cons r rs =>
    obtain ⟨a, r, rfl⟩ := List.exists_cons_of_ne_nil
      (show r ≠ [] from fun h => hne (h ▸ List.mem_cons_self))
    exact run_closing_runs (fun h => hne (List.mem_cons_of_mem _ h)) hsame hdiff

/-- The time from the first record of a run of `e` to its last one. -/
def repeated (e : JString) (r : List ExecutionDatum) : ℤ :=
  match r.head?, r.getLast? with
  | some first, some last =>
    if first.execution = e then last.timestamp.toInt - first.timestamp.toInt else 0
  | _, _ => 0

/-- What ends and the intervals of the same runs. -/
theorem tally_runs (e : JString) {rs : List (List ExecutionDatum)} (hne : [] ∉ rs)
    (hsame : ∀ r ∈ rs, ∀ a ∈ r, ∀ b ∈ r, a.execution = b.execution)
    (hts : ∀ r ∈ rs, ∀ a ∈ r, 0 ≤ a.timestamp) :
    (tally e (List.zipWith closed (lasts rs) (firsts rs).tail)).1
        = ((List.zipWith interval (firsts rs) (firsts rs).tail).filter
            fun x => x.execution = e).length ∧
      (tally e (List.zipWith closed (lasts rs) (firsts rs).tail)).2
          + (rs.dropLast.map (repeated e)).sum
        = (((List.zipWith interval (firsts rs) (firsts rs).tail).filter
            fun x => x.execution = e).map (·.duration.toInt)).sum := by
  induction rs with
  | nil => exact ⟨rfl, rfl⟩
  | cons r rs ih =>
    obtain ⟨f, r, rfl⟩ := List.exists_cons_of_ne_nil
      (show r ≠ [] from fun h => hne (h ▸ List.mem_cons_self))
    cases rs with
    | nil =>
      have hzip : (firsts [f :: r]).tail = [] := rfl
      rw [hzip, List.zipWith_nil_right, List.zipWith_nil_right]
      exact ⟨rfl, rfl⟩
    | cons r' rs =>
      obtain ⟨hcount, hsum⟩ := ih (fun h => hne (List.mem_cons_of_mem _ h))
        (fun q hq => hsame q (List.mem_cons_of_mem _ hq))
        (fun q hq => hts q (List.mem_cons_of_mem _ hq))
      obtain ⟨f', r', rfl⟩ := List.exists_cons_of_ne_nil
        (show r' ≠ [] from fun h => hne (h ▸ List.mem_cons_of_mem _ List.mem_cons_self))
      obtain ⟨l, hl⟩ : ∃ l, r.getLast?.getD f = l := ⟨_, rfl⟩
      have hexec : l.execution = f.execution :=
        hsame _ List.mem_cons_self l (hl ▸ getLast?_getD_mem f r) f List.mem_cons_self
      have hclosed : List.zipWith closed (lasts ((f :: r) :: (f' :: r') :: rs))
            (firsts ((f :: r) :: (f' :: r') :: rs)).tail
          = closed l f' :: List.zipWith closed (lasts ((f' :: r') :: rs))
              (firsts ((f' :: r') :: rs)).tail := by
        rw [lasts_cons, hl]
        rfl
      have hintervals : List.zipWith interval (firsts ((f :: r) :: (f' :: r') :: rs))
            (firsts ((f :: r) :: (f' :: r') :: rs)).tail
          = interval f f' :: List.zipWith interval (firsts ((f' :: r') :: rs))
              (firsts ((f' :: r') :: rs)).tail := rfl
      have hrepeated : (((f :: r) :: (f' :: r') :: rs).dropLast.map (repeated e)).sum
          = (if f.execution = e then l.timestamp.toInt - f.timestamp.toInt else 0)
            + ((((f' :: r') :: rs).dropLast).map (repeated e)).sum := by
        rw [List.dropLast_cons_cons, List.map_cons, List.sum_cons, repeated, List.getLast?_cons, hl]
        rfl
      have hduration : (interval f f').duration.toInt
          = f'.timestamp.toInt - f.timestamp.toInt :=
        toInt_sub_of_nonneg
          (hts _ (List.mem_cons_of_mem _ List.mem_cons_self) f' List.mem_cons_self)
          (hts _ List.mem_cons_self f List.mem_cons_self)
      rw [hclosed, hintervals, hrepeated, tally_cons, List.filter_cons]
      by_cases he : f.execution = e
      · have hce : (closed l f').1 = e := hexec.trans he
        have hie : (interval f f').execution = e := he
        rw [if_pos hce, if_pos he, if_pos (decide_eq_true hie), List.length_cons, List.map_cons,
          List.sum_cons, hcount, ← hsum, hduration]
        refine ⟨rfl, ?_⟩
        show f'.timestamp.toInt - l.timestamp.toInt + _ + _ = _
        omega
      · have hce : ¬(closed l f').1 = e := fun h => he (hexec.symm.trans h)
        have hie : ¬(interval f f').execution = e := he
        rw [if_neg hce, if_neg he, if_neg (by simpa using hie), zero_add]
        exact ⟨hcount, hsum⟩

/-- **The counts of the check**: they are the tally of what the messages end. For a machine
that ends as often as there are intervals of `Staging.kt`, and the time missing is that
from the first record of a run to its last one. -/
theorem checkExecutionCounts_closings {xs : List (JString × Sample)}
    (hfull : ∀ x ∈ xs, x.2.execution ≠ some []) (hts : ∀ x ∈ xs, 0 ≤ x.2.timestamp) :
    (∀ e, (counted xs).dd e = tally e ((closings xs).map Prod.snd)) ∧
    ∀ machine, ∃ runs,
      MaximalRuns ExecutionDatum.execution (executionHistory machine xs) runs ∧
      ∀ e,
        (tally e (project machine (closings xs))).1
          = ((project machine (intervals xs)).filter fun x => x.execution = e).length ∧
        (tally e (project machine (closings xs))).2 + (runs.dropLast.map (repeated e)).sum
          = (((project machine (intervals xs)).filter fun x => x.execution = e).map
              (·.duration.toInt)).sum := by
  refine ⟨(tallies_counted xs).dd, fun machine => ?_⟩
  obtain ⟨runs, hruns⟩ := exists_maximalRuns ExecutionDatum.execution (executionHistory machine xs)
  refine ⟨runs, hruns, fun e => ?_⟩
  have hclosings : project machine (closings xs)
      = List.zipWith closed (lasts runs) (firsts runs).tail := by
    rw [closings, project_run_keyed, project_seen hfull, run_closing hruns]
  have hintervals : project machine (intervals xs)
      = List.zipWith interval (firsts runs) (firsts runs).tail := by
    rw [project_intervals, run_dedup hruns, run_lag]
  rw [hclosings, hintervals]
  refine tally_runs e hruns.nonempty hruns.same fun r hr a ha => ?_
  -- a record has the timestamp of its message
  have hmem : a ∈ executionHistory machine xs := by
    rw [← hruns.flatten]
    exact List.mem_flatten.mpr ⟨r, hr, ha⟩
  obtain ⟨v, hv, hav⟩ := List.mem_filterMap.mp hmem
  unfold executionDatum at hav
  split at hav
  · exact absurd hav.symm (Option.some_ne_none a)
  · obtain ⟨execution, -, rfl⟩ := Option.map_eq_some_iff.mp hav
    exact hts _ (mem_project.mp hv)

/-! ## One machine -/

/-- A message of a machine. -/
def message (execution : Option String) (timestamp : Int64) : JString × Sample :=
  ("lathe".toList,
    { machineId := "lathe".toList
      execution := execution.map String.toList
      timestamp := timestamp
      partition := 0
      offset := timestamp })

/-- A machine that is active, twice sampled, then ready, then active. -/
def activeTwice : List (JString × Sample) :=
  [message (some "ACTIVE") 1000, message none 2000, message (some "ACTIVE") 9000,
    message (some "READY") 10000, message (some "ACTIVE") 12000]

/-- The second change is from active to ready. -/
theorem checkExecutionChanges_activeTwice :
    project "lathe".toList (checkExecutionChanges.run (fun _ => none) activeTwice)
      = (lagged (·.execution)
          (project "lathe".toList (executions.run (fun _ => none) activeTwice))).map changeTo :=
  checkExecutionChanges_eq (by decide) "lathe".toList

/-- It was active for 9 seconds; the check has one. -/
theorem checkExecutionCounts_activeTwice :
    (counted activeTwice).dd "ACTIVE".toList = (1, 1000) ∧
      ∃ runs, MaximalRuns ExecutionDatum.execution
          (executionHistory "lathe".toList activeTwice) runs ∧
        (tally "ACTIVE".toList (project "lathe".toList (closings activeTwice))).2
            + (runs.dropLast.map (repeated "ACTIVE".toList)).sum
          = (((project "lathe".toList (intervals activeTwice)).filter fun x =>
              x.execution = "ACTIVE".toList).map (·.duration.toInt)).sum := by
  obtain ⟨-, hmachine⟩ := checkExecutionCounts_closings (show ∀ x ∈ activeTwice,
    x.2.execution ≠ some [] by decide) (by decide)
  obtain ⟨runs, hruns, htally⟩ := hmachine "lathe".toList
  exact ⟨by decide, runs, hruns, (htally "ACTIVE".toList).2⟩

end FanucDriver.Debug
