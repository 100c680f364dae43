import FanucDriver.Lib.Overlay
import FanucDriver.Lib.Transducer

/-!
# Several writers of one overlay

Writes that carry the name of their writer. The reader of the common stream holds
`overlay (ws.map Prod.snd)`; a writer that keeps its own books believes the reader
holds `overlay (project w ws)`, what it wrote last itself.

`overlay_project_iff`: all writers of a key are right about it exactly when they wrote
the same value last.
-/

namespace FanucDriver.Lib

open Transducer

variable {W K V : Type} [DecidableEq W] [DecidableEq K]

/-- What the reader holds was written by somebody, who wrote nothing after it. -/
theorem exists_overlay_project {ws : List (W × K × V)} {k : K} {x : V}
    (h : overlay (ws.map Prod.snd) k = some x) :
    ∃ w, overlay (project w ws) k = some x := by
  induction ws using List.reverseRecOn with
  | nil => exact absurd h (by simp)
  | append_singleton ws u ih =>
    obtain ⟨w, k', y⟩ := u
    rw [List.map_append, overlay_append] at h
    change (overlay [(k', y)] k).or _ = some x at h
    by_cases hk : k = k'
    · -- the last write decides for its writer and for the reader
      subst hk
      rw [overlay_singleton_self, Option.some_or] at h
      refine ⟨w, ?_⟩
      rw [project_append, project_cons_self, overlay_append]
      show (overlay [(k, y)] k).or _ = some x
      rw [overlay_singleton_self, Option.some_or, h]
    · rw [overlay_singleton, if_neg hk, Option.none_or] at h
      obtain ⟨w', hw'⟩ := ih h
      have hnone : overlay (project w' [(w, k', y)]) k = none := by
        refine overlay_eq_none_iff.mpr fun u hu he => hk ?_
        have hlast := List.mem_singleton.mp (mem_project.mp hu)
        rw [← he, congrArg (·.2.1) hlast]
      exact ⟨w', by rw [project_append, overlay_append, hnone, Option.none_or, hw']⟩

/-- A writer holds values only under keys it wrote. -/
theorem mem_of_overlay_project {ws : List (W × K × V)} {w : W} {k : K} {x : V}
    (h : overlay (project w ws) k = some x) : (w, k, x) ∈ ws :=
  mem_project.mp (overlay_mem h)

/-- The only writer of a key is right about it. -/
theorem overlay_project_of_single {ws : List (W × K × V)} {w : W} {k : K}
    (h : ∀ w' x, (w', k, x) ∈ ws → w' = w) :
    overlay (ws.map Prod.snd) k = overlay (project w ws) k := by
  cases hx : overlay (ws.map Prod.snd) k with
  | none =>
    refine (overlay_eq_none_iff.mpr fun u hu he => ?_).symm
    exact overlay_eq_none_iff.mp hx u (List.mem_map_of_mem (mem_project.mp hu)) he
  | some x =>
    obtain ⟨w', hw'⟩ := exists_overlay_project hx
    rw [← h w' x (mem_of_overlay_project hw'), hw']

/-- **When the writers of a key are right about it.** -/
theorem overlay_project_iff (ws : List (W × K × V)) (k : K) :
    (∀ w x, (w, k, x) ∈ ws → overlay (ws.map Prod.snd) k = overlay (project w ws) k) ↔
      ∀ w w' x x', (w, k, x) ∈ ws → (w', k, x') ∈ ws →
        overlay (project w ws) k = overlay (project w' ws) k := by
  constructor
  · intro h w w' x x' hx hx'
    exact (h w x hx).symm.trans (h w' x' hx')
  · intro h w x hx
    -- the reader holds what one of the writers wrote last
    have hsome : (overlay (ws.map Prod.snd) k).isSome := by
      rw [Option.isSome_iff_ne_none]
      intro hnone
      exact overlay_eq_none_iff.mp hnone (k, x) (List.mem_map_of_mem hx) rfl
    obtain ⟨y, hy⟩ := Option.isSome_iff_exists.mp hsome
    obtain ⟨w', hw'⟩ := exists_overlay_project hy
    rw [hy, ← hw']
    exact h w' w y x (mem_of_overlay_project hw') hx

end FanucDriver.Lib
