import Mathlib.Data.List.Basic
import Mathlib.Tactic.Common

/-!
# Logs of updates to a keyed table

A log says, in order, which keys have been set to what and which have
been deleted. `Latest log k v` is what it says about a key, and
`live log` the table as the log leaves it, with its entries in the order
in which they were last set. One more update takes the entry of its key
out and, when it sets the key, adds one at the end (`live_concat`); so a
table that is updated like this is `live` of its log.
-/

namespace Sylar

inductive Update (κ ν : Type*) where
  | set (k : κ) (v : ν)
  | del (k : κ)

namespace Update

variable {κ ν : Type*}

def key : Update κ ν → κ
  | .set k _ | .del k => k

/-- The key has been set to `v` and not been touched since. -/
def Latest (log : List (Update κ ν)) (k : κ) (v : ν) : Prop :=
  ∃ before since, log = before ++ .set k v :: since ∧ ∀ u ∈ since, u.key ≠ k

theorem latest_concat {log : List (Update κ ν)} {u : Update κ ν} {k : κ} {v : ν} :
    Latest (log ++ [u]) k v ↔ u = .set k v ∨ u.key ≠ k ∧ Latest log k v := by
  constructor
  · rintro ⟨before, since, heq, huntouched⟩
    rcases List.eq_nil_or_concat since with rfl | ⟨since, u', rfl⟩
    · obtain ⟨-, heq⟩ := List.append_inj' heq rfl
      exact .inl (List.singleton_inj.mp heq)
    · rw [List.concat_eq_append, ← List.cons_append, ← List.append_assoc] at heq
      obtain ⟨hlog, heq⟩ := List.append_inj' heq rfl
      obtain rfl := List.singleton_inj.mp heq
      exact .inr ⟨huntouched u (by simp),
        before, since, hlog, fun w hw => huntouched w (by simp [hw])⟩
  · rintro (rfl | ⟨hne, before, since, rfl, huntouched⟩)
    · exact ⟨log, [], rfl, fun _ hu => absurd hu List.not_mem_nil⟩
    · refine ⟨before, since ++ [u], by simp, fun w hw => ?_⟩
      rcases List.mem_append.mp hw with hw | hw
      · exact huntouched w hw
      · rw [List.mem_singleton.mp hw]
        exact hne

section Live

variable [DecidableEq κ]

def live : List (Update κ ν) → List (κ × ν)
  | [] => []
  | .del _ :: log => live log
  | .set k v :: log => if ∃ u ∈ log, u.key = k then live log else (k, v) :: live log

theorem not_mem_live {log : List (Update κ ν)} {k : κ} (h : ∀ u ∈ log, u.key ≠ k) (v : ν) :
    (k, v) ∉ live log := by
  induction log with
  | nil => exact List.not_mem_nil
  | cons u log ih =>
    obtain ⟨hu, hlog⟩ := List.forall_mem_cons.mp h
    cases u with
    | del k' => exact ih hlog
    | set k' v' =>
      rw [live]
      split
      · exact ih hlog
      · rw [List.mem_cons, not_or]
        exact ⟨fun heq => hu (congrArg Prod.fst heq).symm, ih hlog⟩

/-- No key is twice in a table. -/
theorem nodup_live (log : List (Update κ ν)) : ((live log).map Prod.fst).Nodup := by
  induction log with
  | nil => exact List.nodup_nil
  | cons u log ih =>
    cases u with
    | del k => exact ih
    | set k v =>
      rw [live]
      split
      · exact ih
      · rename_i huntouched
        push Not at huntouched
        rw [List.map_cons, List.nodup_cons]
        refine ⟨fun hmem => ?_, ih⟩
        obtain ⟨⟨k', w⟩, hin, rfl⟩ := List.mem_map.mp hmem
        exact not_mem_live huntouched w hin

/-- One more update: the entry of its key is gone, whatever it was, and
what it sets comes last. -/
theorem live_concat (log : List (Update κ ν)) (u : Update κ ν) :
    live (log ++ [u]) = (live log).filter (·.1 ≠ u.key) ++ live [u] := by
  induction log with
  | nil => rfl
  | cons u' log ih =>
    cases u' with
    | del k => exact ih
    | set k v =>
      rw [List.cons_append, live, live, ih]
      by_cases hin : ∃ w ∈ log, w.key = k
      · obtain ⟨w, hw, hk⟩ := hin
        rw [if_pos ⟨w, List.mem_append_left _ hw, hk⟩, if_pos ⟨w, hw, hk⟩]
      · rw [if_neg hin]
        by_cases hk : k = u.key
        · rw [if_pos ⟨u, by simp, hk.symm⟩, List.filter_cons_of_neg (by simp [hk])]
        · rw [if_neg, List.filter_cons_of_pos (by simpa using hk), List.cons_append]
          rintro ⟨w, hw, hkey⟩
          rcases List.mem_append.mp hw with hw | hw
          · exact hin ⟨w, hw, hkey⟩
          · rw [List.mem_singleton.mp hw] at hkey
            exact hk hkey.symm

end Live

end Update

end Sylar
