import Mathlib.Tactic.Common

/-!
# Maps that are filled on the first read

A map in several spaces `S` with names `N`. The first read in a space
fills it with what `parsed` says, except for names that are there
already; updates do not wait for it. `eager` is the map that was filled
at once.

The two can only be told apart by a name that is deleted before its
space is filled, and then comes back (`Deleted`): the answers of a
sequence of operations agree exactly if no read sees one (`results_iff`).
-/

namespace Sylar

structure LazyMap (S N V : Type) where
  started : S → Bool
  map : S → N → Option V

namespace LazyMap

variable {S N V R : Type}

/-- `see` is what a read makes of the entry. -/
inductive Op (S N V R : Type) where
  | set (s : S) (n : N) (v : V)
  | del (s : S) (n : N)
  | read (s : S) (n : N) (see : Option V → R)

namespace Op

def Reads (s : S) : Op S N V R → Prop
  | .read s' _ _ => s' = s
  | _ => False

def Updates (s : S) (n : N) : Op S N V R → Prop
  | .set s' n' _ | .del s' n' => s' = s ∧ n' = n
  | .read .. => False

end Op

/-- The last update of the name is a deletion, and its space has not been
read before that. -/
def Deleted (ops : List (Op S N V R)) (s : S) (n : N) : Prop :=
  ∃ before after, ops = before ++ .del s n :: after ∧ (∀ op ∈ before, ¬op.Reads s) ∧
    ∀ op ∈ after, ¬op.Updates s n

/-! ## One more operation -/

section

variable {parsed : S → N → Option V} {s : S} {n : N} {pre ops : List (Op S N V R)}
  {op : Op S N V R}

theorem deleted_nil : ¬Deleted ([] : List (Op S N V R)) s n := by
  rintro ⟨before, after, hops, -⟩
  exact absurd hops (by simp)

/-- The deletion is the last operation, or in front of it. -/
theorem append_singleton_eq {α : Type} {xs before after : List α} {x y : α}
    (h : xs ++ [x] = before ++ y :: after) : after = [] ∧ xs = before ∧ x = y ∨
      ∃ rest, after = rest ++ [x] ∧ xs = before ++ y :: rest := by
  obtain rfl | ⟨rest, last, rfl⟩ := List.eq_nil_or_concat after
  · obtain ⟨hxs, hlast⟩ := List.append_inj' h rfl
    exact .inl ⟨rfl, hxs, (List.cons.inj hlast).1⟩
  · rw [List.concat_eq_append, ← List.cons_append, ← List.append_assoc] at h
    obtain ⟨hxs, hlast⟩ := List.append_inj' h rfl
    rw [List.concat_eq_append, (List.cons.inj hlast).1]
    exact .inr ⟨rest, rfl, hxs⟩

theorem deleted_other (hop : ¬op.Updates s n) : Deleted (ops ++ [op]) s n ↔ Deleted ops s n := by
  constructor
  · rintro ⟨before, after, hops, hbefore, hafter⟩
    obtain ⟨-, -, rfl⟩ | ⟨rest, rfl, rfl⟩ := append_singleton_eq hops
    · exact absurd ⟨rfl, rfl⟩ hop
    · exact ⟨before, rest, rfl, hbefore, fun op' hmem => hafter op' (List.mem_append_left _ hmem)⟩
  · rintro ⟨before, after, rfl, hbefore, hafter⟩
    refine ⟨before, after ++ [op], by simp, hbefore, fun op' hmem => ?_⟩
    obtain hmem | hmem := List.mem_append.mp hmem
    · exact hafter op' hmem
    · rw [List.mem_singleton.mp hmem]
      exact hop

theorem deleted_del : Deleted (ops ++ [.del s n]) s n ↔ ∀ op ∈ ops, ¬op.Reads s := by
  constructor
  · rintro ⟨before, after, hops, hbefore, hafter⟩
    obtain ⟨-, rfl, -⟩ | ⟨rest, rfl, -⟩ := append_singleton_eq hops
    · exact hbefore
    · exact absurd ⟨rfl, rfl⟩ (hafter (.del s n) (by simp))
  · intro hbefore
    exact ⟨ops, [], rfl, hbefore, fun _ hmem => nomatch hmem⟩

theorem deleted_set (v : V) : ¬Deleted (ops ++ [.set s n v]) s n := by
  rintro ⟨before, after, hops, -, hafter⟩
  obtain ⟨-, -, hlast⟩ | ⟨rest, rfl, -⟩ := append_singleton_eq hops
  · cases hlast
  · exact absurd ⟨rfl, rfl⟩ (hafter (.set s n v) (by simp))

/-- The reads of `ops`, behind `pre`, do not see a name that has come
back. -/
def Unseen (parsed : S → N → Option V) (pre ops : List (Op S N V R)) : Prop :=
  ∀ front s n see rest, ops = front ++ .read s n see :: rest → Deleted (pre ++ front) s n →
    see (parsed s n) = see none

theorem unseen_cons (hop : ∀ s n see, op ≠ .read s n see) :
    Unseen parsed pre (op :: ops) ↔ Unseen parsed (pre ++ [op]) ops := by
  constructor
  · rintro h front s n see rest rfl hdeleted
    exact h (op :: front) s n see rest rfl (by simpa using hdeleted)
  · intro h front s n see rest hops hdeleted
    cases front with
    | nil => exact absurd (List.cons.inj hops).1 (hop s n see)
    | cons op' front =>
        obtain ⟨rfl, hrest⟩ := List.cons.inj hops
        exact h front s n see rest hrest (by simpa using hdeleted)

theorem unseen_read {see : Option V → R} : Unseen parsed pre (.read s n see :: ops) ↔
    (Deleted pre s n → see (parsed s n) = see none) ∧
      Unseen parsed (pre ++ [.read s n see]) ops := by
  constructor
  · intro h
    refine ⟨fun hdeleted => h [] s n see ops rfl (by simpa using hdeleted), ?_⟩
    rintro front s' n' see' rest rfl hdeleted
    exact h (.read s n see :: front) s' n' see' rest rfl (by simpa using hdeleted)
  · rintro ⟨hhead, h⟩ front s' n' see' rest hops hdeleted
    cases front with
    | nil =>
        obtain ⟨hop, -⟩ := List.cons.inj hops
        obtain ⟨rfl, rfl, rfl⟩ := Op.read.inj hop
        exact hhead (by simpa using hdeleted)
    | cons op' front =>
        obtain ⟨rfl, hrest⟩ := List.cons.inj hops
        exact h front s' n' see' rest hrest (by simpa using hdeleted)

end

/-! ## The answers -/

section

variable (parsed : S → N → Option V)

def fresh : LazyMap S N V := ⟨fun _ => false, fun _ _ => none⟩

def eager : LazyMap S N V := ⟨fun _ => true, parsed⟩

/-- What a read would find. -/
def view (m : LazyMap S N V) (s : S) (n : N) : Option V :=
  if m.started s = false then (m.map s n).or (parsed s n) else m.map s n

/-- The map and the one that was filled at once, after the operations
`pre`: they differ in the names that have come back. -/
structure Related (pre : List (Op S N V R)) (m e : LazyMap S N V) : Prop where
  started : ∀ s, m.started s = true ↔ ∃ op ∈ pre, op.Reads s
  eager : ∀ s, e.started s = true
  deleted : ∀ s n, Deleted pre s n → m.view parsed s n = parsed s n ∧ e.map s n = none
  others : ∀ s n, ¬Deleted pre s n → m.view parsed s n = e.map s n

theorem related_fresh :
    Related parsed ([] : List (Op S N V R)) fresh (LazyMap.eager parsed) where
  started s := by simp [fresh]
  eager _ := rfl
  deleted _ _ hdeleted := absurd hdeleted deleted_nil
  others s n _ := by simp [fresh, view, LazyMap.eager]

variable [DecidableEq S]

/-- What a read does first. -/
def start (m : LazyMap S N V) (s : S) : LazyMap S N V where
  started s' := s' = s || m.started s'
  map s' n := if s' = s ∧ m.started s = false then (m.map s' n).or (parsed s' n) else m.map s' n

theorem start_map (m : LazyMap S N V) (s : S) (n : N) :
    (m.start parsed s).map s n = m.view parsed s n := by
  simp [start, view]

theorem view_start (m : LazyMap S N V) (s s' : S) (n : N) :
    (m.start parsed s).view parsed s' n = m.view parsed s' n := by
  by_cases hs : s' = s
  · subst hs
    simp [start, view]
  · simp [start, view, hs]

theorem start_eager {e : LazyMap S N V} (h : ∀ s, e.started s = true) (s : S) :
    (e.start parsed s).map = e.map := by
  funext s' n
  simp [start, h]

variable [DecidableEq N]

def put (m : LazyMap S N V) (s : S) (n : N) (v : Option V) : LazyMap S N V :=
  { m with map := fun s' n' => if s' = s ∧ n' = n then v else m.map s' n' }

theorem put_map (m : LazyMap S N V) (s s' : S) (n n' : N) (v : Option V) :
    (m.put s n v).map s' n' = if s' = s ∧ n' = n then v else m.map s' n' := rfl

theorem view_put (m : LazyMap S N V) (s s' : S) (n n' : N) (v : Option V) :
    (m.put s n v).view parsed s' n' =
      if s' = s ∧ n' = n then (if m.started s = false then v.or (parsed s n) else v)
      else m.view parsed s' n' := by
  by_cases hsame : s' = s ∧ n' = n
  · obtain ⟨rfl, rfl⟩ := hsame
    simp [put, view]
  · simp [put, view, hsame]

/-- The answers of the reads. -/
def results : LazyMap S N V → List (Op S N V R) → List R
  | _, [] => []
  | m, .set s n v :: ops => results (m.put s n (some v)) ops
  | m, .del s n :: ops => results (m.put s n none) ops
  | m, .read s n see :: ops =>
      see ((m.start parsed s).map s n) :: results (m.start parsed s) ops

variable {parsed} {m e : LazyMap S N V} {s s' : S} {n n' : N} {ops pre : List (Op S N V R)}

theorem Related.put_other (h : Related parsed pre m e) {op : Op S N V R} {v : Option V}
    (hop : ∀ s' n', op.Updates s' n' → s' = s ∧ n' = n) (hsame : ¬(s' = s ∧ n' = n)) :
    (Deleted (pre ++ [op]) s' n' →
      (m.put s n v).view parsed s' n' = parsed s' n' ∧ (e.put s n v).map s' n' = none) ∧
    (¬Deleted (pre ++ [op]) s' n' →
      (m.put s n v).view parsed s' n' = (e.put s n v).map s' n') := by
  rw [deleted_other fun hup => hsame (hop s' n' hup), view_put, put_map, if_neg hsame,
    if_neg hsame]
  exact ⟨h.deleted s' n', h.others s' n'⟩

theorem Related.started_put (h : Related parsed pre m e) {op : Op S N V R} {v : Option V}
    (hop : ∀ s', ¬op.Reads s') (s' : S) :
    (m.put s n v).started s' = true ↔ ∃ op' ∈ pre ++ [op], op'.Reads s' := by
  refine (h.started s').trans ⟨?_, ?_⟩
  · rintro ⟨op', hmem, hreads⟩
    exact ⟨op', List.mem_append_left _ hmem, hreads⟩
  · rintro ⟨op', hmem, hreads⟩
    obtain hmem | hmem := List.mem_append.mp hmem
    · exact ⟨op', hmem, hreads⟩
    · rw [List.mem_singleton.mp hmem] at hreads
      exact absurd hreads (hop s')

theorem Related.set (h : Related parsed pre m e) (v : V) :
    Related parsed (pre ++ [.set s n v]) (m.put s n (some v)) (e.put s n (some v)) := by
  have hup : ∀ s' n', (Op.set s n v : Op S N V R).Updates s' n' → s' = s ∧ n' = n :=
    fun s' n' hup => ⟨hup.1.symm, hup.2.symm⟩
  refine ⟨h.started_put fun _ hreads => hreads, h.eager, fun s' n' => ?_, fun s' n' => ?_⟩
  · by_cases hsame : s' = s ∧ n' = n
    · obtain ⟨rfl, rfl⟩ := hsame
      exact fun hdeleted => absurd hdeleted (deleted_set v)
    · exact (h.put_other hup hsame).1
  · by_cases hsame : s' = s ∧ n' = n
    · intro _
      rw [view_put, put_map, if_pos hsame, if_pos hsame]
      split <;> rfl
    · exact (h.put_other hup hsame).2

theorem Related.del (h : Related parsed pre m e) :
    Related parsed (pre ++ [.del s n]) (m.put s n none) (e.put s n none) := by
  have hup : ∀ s' n', (Op.del s n : Op S N V R).Updates s' n' → s' = s ∧ n' = n :=
    fun s' n' hup => ⟨hup.1.symm, hup.2.symm⟩
  have hdel : Deleted (pre ++ [.del s n]) s n ↔ m.started s = false := by
    rw [deleted_del, Bool.eq_false_iff, ne_eq, h.started s]
    simp
  refine ⟨h.started_put fun _ hreads => hreads, h.eager, fun s' n' => ?_, fun s' n' => ?_⟩
  · by_cases hsame : s' = s ∧ n' = n
    · intro hdeleted
      rw [view_put, put_map, if_pos hsame, if_pos hsame]
      obtain ⟨rfl, rfl⟩ := hsame
      rw [if_pos (hdel.mp hdeleted)]
      exact ⟨rfl, rfl⟩
    · exact (h.put_other hup hsame).1
  · by_cases hsame : s' = s ∧ n' = n
    · intro hdeleted
      rw [view_put, put_map, if_pos hsame, if_pos hsame]
      obtain ⟨rfl, rfl⟩ := hsame
      rw [if_neg fun hnot => hdeleted (hdel.mpr hnot)]
    · exact (h.put_other hup hsame).2

omit [DecidableEq N] in
theorem Related.read (h : Related parsed pre m e) (see : Option V → R) :
    Related parsed (pre ++ [.read s n see]) (m.start parsed s) (e.start parsed s) where
  started s' := by
    simp only [start, Bool.or_eq_true, decide_eq_true_eq, h.started s', List.mem_append,
      List.mem_singleton]
    constructor
    · rintro (rfl | ⟨op, hmem, hreads⟩)
      · exact ⟨_, .inr rfl, rfl⟩
      · exact ⟨op, .inl hmem, hreads⟩
    · rintro ⟨op, hmem | rfl, hreads⟩
      · exact .inr ⟨op, hmem, hreads⟩
      · exact .inl hreads.symm
  eager s' := by simp [start, h.eager]
  deleted s' n' hdeleted := by
    rw [deleted_other fun hup : (Op.read s n see).Updates _ _ => hup] at hdeleted
    rw [view_start, start_eager parsed h.eager]
    exact h.deleted s' n' hdeleted
  others s' n' hdeleted := by
    rw [deleted_other fun hup : (Op.read s n see).Updates _ _ => hup] at hdeleted
    rw [view_start, start_eager parsed h.eager]
    exact h.others s' n' hdeleted

theorem Related.results_iff : ∀ {ops pre : List (Op S N V R)} {m e : LazyMap S N V},
    Related parsed pre m e → (results parsed m ops = results parsed e ops ↔ Unseen parsed pre ops)
  | [], pre, m, e, _ => ⟨fun _ front _ _ _ _ hops => absurd hops (by simp), fun _ => rfl⟩
  | .set s n v :: ops, pre, m, e, h => by
      rw [unseen_cons (by simp)]
      exact (h.set v).results_iff
  | .del s n :: ops, pre, m, e, h => by
      rw [unseen_cons (by simp)]
      exact h.del.results_iff
  | .read s n see :: ops, pre, m, e, h => by
      rw [unseen_read, results, results, List.cons.injEq, (h.read see).results_iff, start_map,
        start_eager parsed h.eager]
      refine and_congr_left fun _ => ?_
      by_cases hdeleted : Deleted pre s n
      · obtain ⟨hview, hnone⟩ := h.deleted s n hdeleted
        rw [hview, hnone]
        exact ⟨fun hsee _ => hsee, fun hsee => hsee hdeleted⟩
      · rw [h.others s n hdeleted]
        exact ⟨fun _ hd => absurd hd hdeleted, fun _ => rfl⟩

/-- **Filling on the first read is observed** exactly by a read that sees
a name which was deleted before. -/
theorem results_iff (ops : List (Op S N V R)) :
    results parsed fresh ops = results parsed (eager parsed) ops ↔ Unseen parsed [] ops :=
  (related_fresh parsed).results_iff

end

end LazyMap

end Sylar
