import FanucDriver.Streams.Staging

/-!
# The deduplication of `Staging.kt`

`DedupTransformer` over records of any number of keys, interleaved in any order.
`dedupTransformer_dropRepeats`: what comes out for a key is that key's input without its
repeats, the store holds the last value of each key, and no key sees another.

A repeat is a record with a value, and with the last value of its key
(`Lib.Transducer.Repeats`). A record without a value passes.
-/

namespace FanucDriver.Streams

open FanucDriver.Lib FanucDriver.Lib.Transducer

variable {K V E : Type} [DecidableEq K] [DecidableEq E] (valueExtractor : K → V → Option E)

/-- The transformer and the filter behind it. -/
def dedupTransformer : Transducer (KeyValueStore K E) (K × V) (K × V) :=
  transformValues (DedupTransformer.transform valueExtractor)

/-- What comes out of a stream, from an empty store. -/
def dedupOutput (xs : List (K × V)) : List (K × V) :=
  (dedupTransformer valueExtractor).run (fun _ => none) xs

/-- The store after a stream. -/
def dedupStore (xs : List (K × V)) : KeyValueStore K E :=
  (dedupTransformer valueExtractor).final (fun _ => none) xs

/-- For one key: its input without the repeats. -/
theorem project_dedupOutput (xs : List (K × V)) (k : K) :
    project k (dedupOutput valueExtractor xs) = dropRepeats (valueExtractor k) (project k xs) := by
  rw [dedupOutput, dedupTransformer, transformValues_dedup, project_run_keyed,
    run_dedup_eq_dropRepeats]

/-- For one key: its last value. -/
theorem dedupStore_eq (xs : List (K × V)) (k : K) :
    dedupStore valueExtractor xs k = ((project k xs).filterMap (valueExtractor k)).getLast? := by
  rw [dedupStore, dedupTransformer, transformValues_dedup, final_keyed, final_dedup, Option.or_none]

/-- A record without a value passes, and leaves the store. -/
theorem dedupTransformer_none {k : K} {value : V} (h : valueExtractor k value = none)
    (store : KeyValueStore K E) :
    dedupTransformer valueExtractor store (k, value) = (store, some (k, value)) := by
  simp only [dedupTransformer, transformValues, DedupTransformer.transform, h, Option.map_some]

/-- A record leaves the cells of the other keys. -/
theorem dedupTransformer_ne {k k' : K} (h : k' ≠ k) (value : V) (store : KeyValueStore K E) :
    (dedupTransformer valueExtractor store (k', value)).1 k = store k := by
  rw [dedupTransformer, transformValues_dedup, keyed_ne h]

/-- A record is answered from the cell of its own key. -/
theorem dedupTransformer_congr {k : K} (value : V) {store store' : KeyValueStore K E}
    (h : store k = store' k) :
    (dedupTransformer valueExtractor store (k, value)).2
      = (dedupTransformer valueExtractor store' (k, value)).2 := by
  rw [dedupTransformer, transformValues_dedup]
  simp only [keyed, h]

/-- **The deduplication drops exactly the consecutive repeats of each key.** -/
theorem dedupTransformer_dropRepeats (xs : List (K × V)) :
    (∀ k, project k (dedupOutput valueExtractor xs)
        = dropRepeats (valueExtractor k) (project k xs)) ∧
    (∀ k, dedupStore valueExtractor xs k
        = ((project k xs).filterMap (valueExtractor k)).getLast?) ∧
    (∀ k value, valueExtractor k value = none → ∀ store,
      dedupTransformer valueExtractor store (k, value) = (store, some (k, value))) ∧
    (∀ k k' value store, k' ≠ k →
      (dedupTransformer valueExtractor store (k', value)).1 k = store k) ∧
    (∀ k value store store', store k = store' k →
      (dedupTransformer valueExtractor store (k, value)).2
        = (dedupTransformer valueExtractor store' (k, value)).2) ∧
    ∀ ys k, project k ys = project k xs →
      project k (dedupOutput valueExtractor ys) = project k (dedupOutput valueExtractor xs) ∧
      dedupStore valueExtractor ys k = dedupStore valueExtractor xs k := by
  refine ⟨project_dedupOutput valueExtractor xs, dedupStore_eq valueExtractor xs,
    fun k value h store => dedupTransformer_none valueExtractor h store,
    fun k k' value store h => dedupTransformer_ne valueExtractor h value store,
    fun k value store store' h => dedupTransformer_congr valueExtractor value h,
    fun ys k h => ⟨?_, ?_⟩⟩
  · rw [project_dedupOutput, project_dedupOutput, h]
  · rw [dedupStore_eq, dedupStore_eq, h]

/-- Part counts, with the records of two machines in turn. -/
example : dedupOutput (fun (_ : String) (v : Option ℕ) => v)
    [("a", some 1), ("b", some 1), ("a", some 1), ("a", none), ("a", some 1), ("a", some 2)]
      = [("a", some 1), ("b", some 1), ("a", none), ("a", some 2)] := by decide

end FanucDriver.Streams
