import Sylar.HttpMessage

/-!
# The host and the service in `Address::Lookup`

`Lookup` takes a host and a port out of one string and hands them to
`getaddrinfo`: the host as a `std::string`, the service as a pointer
into the string, here the position it points at.

Behind a bracketed host it looks for the port at once. Everywhere else
it searches for a colon, and the pointer keeps what the search has found
also where the colon does not separate a host from a port: in front of a
second colon. `split_iff` says for which strings the two are what they
should be.
-/

namespace Sylar

/-- `memchr(buf, c, n)`: how far behind `buf`. -/
def memchr (buf : Bytes) (c : UInt8) (n : Nat) : Option Nat := (buf.take n).idxOf? c

namespace Address

/-- The first search, for an address in brackets. -/
def ipv6Service (host : Bytes) : Bytes × Option Nat :=
  if host.head? = some 91 then
    match memchr (host.drop 1) 93 (host.length - 1) with
    | some n =>
        let endipv6 := 1 + n
        -- the byte behind the last one is the terminating zero
        ((host.drop 1).take (endipv6 - 1),
          if host.getD (endipv6 + 1) 0 = 58 then some (endipv6 + 2) else none)
    | none => ([], none)
  else ([], none)

/-- The second search, for a colon. -/
def colonService (host : Bytes) : Bytes × Option Nat :=
  match memchr host 58 host.length with
  | some service =>
      if memchr (host.drop (service + 1)) 58 (host.length - service - 1) = none then
        (host.take service, some (service + 1))
      else ([], some service)
  | none => ([], none)

/-- `node` and `service` at the call of `getaddrinfo`. -/
def nodeService (host : Bytes) : Bytes × Option Nat :=
  let (node, service) := ipv6Service host
  let (node, service) := if node = [] then colonService host else (node, service)
  (if node = [] then host else node, service)

/-- `Lookup(result, host, ..)`, with the addresses that `getaddrinfo` finds
for the two strings. -/
def lookup {α : Type} (getaddrinfo : Bytes → Option Bytes → Option (List α)) (result : List α)
    (host : Bytes) : Bool × List α :=
  let (node, service) := nodeService host
  match getaddrinfo (cStr node) (service.map fun p => cStr (host.drop p)) with
  | none => (false, result)
  | some results => (!(result ++ results).isEmpty, result ++ results)

/-! ## Searching -/

variable {host v6 rest h p : Bytes} {c : UInt8}

theorem idxOf?_append (hc : c ∉ h) (ys : Bytes) : (h ++ c :: ys).idxOf? c = some h.length := by
  induction h with
  | nil => rw [List.nil_append, List.idxOf?_cons, if_pos (beq_self_eq_true c), List.length_nil]
  | cons b h ih =>
      obtain ⟨hb, hh⟩ := not_or.mp (List.mem_cons.not.mp hc)
      rw [List.cons_append, List.idxOf?_cons, if_neg (by simpa using Ne.symm hb), ih hh]
      rfl

theorem memchr_append (hc : c ∉ h) (ys : Bytes) {n : Nat} (hn : h.length < n) :
    memchr (h ++ c :: ys) c n = some h.length := by
  obtain ⟨k, rfl⟩ : ∃ k, n = h.length + (k + 1) := ⟨n - h.length - 1, by omega⟩
  rw [memchr, List.take_length_add_append, List.take_succ_cons, idxOf?_append hc]

theorem memchr_eq_none {n : Nat} (hn : h.length ≤ n) : memchr h c n = none ↔ c ∉ h := by
  rw [memchr, List.take_of_length_le hn, List.idxOf?_eq_none_iff]

/-! ## The forms of a host -/

/-- A host that begins with something in brackets. -/
def Boxed (host v6 rest : Bytes) : Prop :=
  v6 ≠ [] ∧ 93 ∉ v6 ∧ host = 91 :: (v6 ++ 93 :: rest)

theorem getD_zero_iff : rest.getD 0 0 = 58 ↔ rest.head? = some 58 := by
  cases rest with
  | nil => exact iff_of_false (by decide) (by simp)
  | cons b rest => simp

theorem ipv6Service_append (hv6 : 93 ∉ v6) : ipv6Service (91 :: (v6 ++ 93 :: rest)) =
    (v6, if rest.head? = some 58 then some (v6.length + 3) else none) := by
  have hlen : v6.length < (91 :: (v6 ++ 93 :: rest)).length - 1 := by simp
  have hget : (91 :: (v6 ++ 93 :: rest)).getD (1 + v6.length + 1) 0 = rest.getD 0 0 := by
    rw [List.getD_eq_getElem?_getD, List.getD_eq_getElem?_getD,
      show 1 + v6.length + 1 = v6.length + 1 + 1 by omega, List.getElem?_cons_succ,
      List.getElem?_append_right (by omega), Nat.add_sub_cancel_left, List.getElem?_cons_succ]
  rw [ipv6Service, if_pos List.head?_cons, List.drop_one, List.tail_cons,
    memchr_append hv6 rest hlen]
  dsimp only
  rw [hget, Nat.add_sub_cancel_left, List.take_left, if_congr getD_zero_iff rfl rfl,
    show 1 + v6.length + 2 = v6.length + 3 by omega]

theorem nodeService_boxed (h : Boxed host v6 rest) : nodeService host =
    (v6, if rest.head? = some 58 then some (v6.length + 3) else none) := by
  obtain ⟨hne, hv6, rfl⟩ := h
  rw [nodeService, ipv6Service_append hv6]
  dsimp only
  rw [if_neg hne, if_neg hne]

/-- Without brackets, or with nothing in them, the colon decides. -/
theorem nodeService_unboxed (h : ∀ v6 rest, ¬Boxed host v6 rest) : nodeService host =
    (if (colonService host).1 = [] then host else (colonService host).1,
      (colonService host).2) := by
  have hnode : (ipv6Service host).1 = [] := by
    rw [ipv6Service]
    split
    · rename_i hhead
      obtain ⟨tl, rfl⟩ := List.head?_eq_some_iff.mp hhead
      rw [List.drop_one, List.tail_cons, List.length_cons, Nat.add_sub_cancel]
      by_cases hmem : (93 : UInt8) ∈ tl
      · obtain ⟨v6, rest, rfl, hv6⟩ := List.eq_append_cons_of_mem hmem
        rw [memchr_append hv6 rest (by simp)]
        have hnil : v6 = [] := by
          by_contra hne
          exact h v6 rest ⟨hne, hv6, rfl⟩
        subst hnil
        rfl
      · rw [(memchr_eq_none (Nat.le_refl _)).mpr hmem]
    · rfl
  rw [nodeService]
  dsimp only
  rw [if_pos hnode]

theorem colonService_none (h : 58 ∉ host) : colonService host = ([], none) := by
  rw [colonService, (memchr_eq_none (Nat.le_refl _)).mpr h]

theorem colonService_append (hh : 58 ∉ h) : colonService (h ++ 58 :: p) =
    if 58 ∈ p then ([], some h.length) else (h, some (h.length + 1)) := by
  have hlen : p.length ≤ (h ++ 58 :: p).length - h.length - 1 := by simp
  have hdrop : (h ++ 58 :: p).drop (h.length + 1) = p := by
    rw [← List.drop_drop, List.drop_left, List.drop_one, List.tail_cons]
  rw [colonService, memchr_append hh p (by simp)]
  dsimp only
  rw [hdrop, if_congr (memchr_eq_none hlen) rfl rfl, List.take_left, ite_not]

/-! ## Which hosts are split -/

/-- `getaddrinfo` gets `node` and the service text `service`. -/
def Passed (host node : Bytes) (service : Option Bytes) : Prop :=
  (nodeService host).1 = node ∧ (nodeService host).2.map host.drop = service

/-- `[v6]` or `[v6]:p`. -/
def Bracketed (host : Bytes) : Prop :=
  ∃ v6 rest, Boxed host v6 rest ∧ (rest = [] ∨ rest.head? = some 58)

/-- What the two are to be, by the form of the host. -/
structure Splits (host : Bytes) : Prop where
  boxedPort : ∀ v6 p, Boxed host v6 (58 :: p) → Passed host v6 (some p)
  boxed : ∀ v6, Boxed host v6 [] → Passed host v6 none
  port : ¬Bracketed host → ∀ h p, h ≠ [] → 58 ∉ h → 58 ∉ p → host = h ++ 58 :: p →
    Passed host h (some p)
  plain : ¬Bracketed host → 58 ∉ host → Passed host host none
  literal : host.head? ≠ some 91 → 2 ≤ host.count 58 → Passed host host none
  within : ∀ i, (nodeService host).2 = some i → i ≤ host.length ∧ host[i]? ≠ some 58

/-- Behind brackets nothing follows, or one colon, or other text and there
are two colons somewhere; elsewhere there is at most one colon. -/
def Splittable (host : Bytes) : Prop :=
  (∃ v6 rest, Boxed host v6 rest ∧
    (rest = [] ∨ (∃ p, rest = 58 :: p ∧ p.head? ≠ some 58) ∨
      rest.head? ≠ some 58 ∧ 2 ≤ host.count 58)) ∨
  (∀ v6 rest, ¬Boxed host v6 rest) ∧ host.count 58 ≤ 1

/-- The place of the first `c`. -/
theorem append_cons_inj {h' p' : Bytes} (hh : c ∉ h) (hh' : c ∉ h')
    (heq : h ++ c :: p = h' ++ c :: p') : h = h' ∧ p = p' := by
  have hlen : h.length = h'.length := by
    have hidx := idxOf?_append hh p
    rw [heq, idxOf?_append hh' p'] at hidx
    exact (Option.some.inj hidx).symm
  obtain ⟨rfl, hp⟩ := List.append_inj heq hlen
  exact ⟨rfl, (List.cons.inj hp).2⟩

theorem Boxed.unique {v6' rest' : Bytes} (hb : Boxed host v6 rest) (hb' : Boxed host v6' rest') :
    v6 = v6' ∧ rest = rest' := by
  obtain ⟨-, hv6, rfl⟩ := hb
  obtain ⟨-, hv6', heq⟩ := hb'
  exact append_cons_inj hv6 hv6' (List.cons.inj heq).2

theorem Boxed.head? (hb : Boxed host v6 rest) : host.head? = some 91 := by
  rw [hb.2.2, List.head?_cons]

theorem Boxed.drop (hb : Boxed host v6 (58 :: p)) : host.drop (v6.length + 3) = p := by
  have hsplit : host = (91 :: v6 ++ [93, 58]) ++ p := by rw [hb.2.2]; simp
  have hlen : v6.length + 3 = (91 :: v6 ++ [93, 58]).length := by simp
  rw [hsplit, hlen, List.drop_left]

theorem count_append (hh : 58 ∉ h) : (h ++ 58 :: p).count 58 = p.count 58 + 1 := by
  rw [List.count_append, List.count_eq_zero_of_not_mem hh, List.count_cons_self, Nat.zero_add]

theorem splits_boxed (hb : Boxed host v6 []) : Splits host := by
  have hargs := nodeService_boxed hb
  have hform : Bracketed host := ⟨v6, [], hb, .inl rfl⟩
  refine ⟨fun u p hu => ?_, fun u hu => ?_, fun hno => absurd hform hno,
    fun hno => absurd hform hno, fun hno => absurd hb.head? hno, fun i hi => ?_⟩
  · cases (hb.unique hu).2
  · obtain ⟨rfl, -⟩ := hb.unique hu
    exact ⟨by rw [hargs], by rw [hargs]; rfl⟩
  · rw [hargs] at hi
    cases hi

theorem splits_boxedPort_iff (hb : Boxed host v6 (58 :: p)) :
    Splits host ↔ p.head? ≠ some 58 := by
  have hargs := nodeService_boxed hb
  rw [if_pos List.head?_cons] at hargs
  have hnext : host[v6.length + 3]? = p.head? := by rw [← List.head?_drop, hb.drop]
  have hform : Bracketed host := ⟨v6, 58 :: p, hb, .inr rfl⟩
  constructor
  · intro h
    rw [← hnext]
    exact (h.within (v6.length + 3) (by rw [hargs])).2
  · intro hp
    refine ⟨fun u q hu => ?_, fun u hu => ?_, fun hno => absurd hform hno,
      fun hno => absurd hform hno, fun hno => absurd hb.head? hno, fun i hi => ?_⟩
    · obtain ⟨rfl, hpq⟩ := hb.unique hu
      obtain rfl := (List.cons.inj hpq).2
      exact ⟨by rw [hargs], by rw [hargs, Option.map_some, hb.drop]⟩
    · cases (hb.unique hu).2
    · rw [hargs] at hi
      obtain rfl := Option.some.inj hi
      refine ⟨?_, by rw [hnext]; exact hp⟩
      rw [hb.2.2]
      simp

/-- Other text behind the brackets is dropped, and so is a port in it. -/
theorem splits_other_iff (hb : Boxed host v6 rest) (hne : rest ≠ [])
    (hcolon : rest.head? ≠ some 58) : Splits host ↔ 2 ≤ host.count 58 := by
  have hargs := nodeService_boxed hb
  rw [if_neg hcolon] at hargs
  have hform : ¬Bracketed host := by
    rintro ⟨u, r, hu, hr⟩
    obtain ⟨-, rfl⟩ := hb.unique hu
    exact hr.elim hne hcolon
  constructor
  · intro h
    by_contra hcount
    by_cases hmem : (58 : UInt8) ∈ host
    · obtain ⟨k, p, hsplit, hk⟩ := List.eq_append_cons_of_mem hmem
      have hone := count_append (p := p) hk
      rw [← hsplit] at hone
      have hp : (58 : UInt8) ∉ p := List.count_eq_zero.mp (by omega)
      have hknil : k ≠ [] := by
        rintro rfl
        have hhead := hb.head?
        rw [hsplit] at hhead
        cases hhead
      have hservice := (h.port hform k p hknil hk hp hsplit).2
      rw [hargs] at hservice
      cases hservice
    · have hnode := (h.plain hform hmem).1
      rw [hargs] at hnode
      have hlen := congrArg List.length hb.2.2
      rw [← show v6 = host from hnode, List.length_cons, List.length_append, List.length_cons]
        at hlen
      omega
  · intro hcount
    refine ⟨fun u q hu => ?_, fun u hu => ?_, fun _ k p _ hk hp hsplit => ?_, fun _ hmem => ?_,
      fun hno => absurd hb.head? hno, fun i hi => ?_⟩
    · exact absurd (congrArg List.head? (hb.unique hu).2) hcolon
    · exact absurd (hb.unique hu).2 hne
    · rw [hsplit, count_append hk, List.count_eq_zero_of_not_mem hp] at hcount
      omega
    · rw [List.count_eq_zero_of_not_mem hmem] at hcount
      omega
    · rw [hargs] at hi
      cases hi

theorem splits_unboxed_iff (hb : ∀ v6 rest, ¬Boxed host v6 rest) :
    Splits host ↔ host.count 58 ≤ 1 := by
  have hargs := nodeService_unboxed hb
  by_cases hmem : (58 : UInt8) ∈ host
  · obtain ⟨h, p, rfl, hh⟩ := List.eq_append_cons_of_mem hmem
    rw [colonService_append hh] at hargs
    rw [count_append hh]
    by_cases hp : (58 : UInt8) ∈ p
    · rw [if_pos hp] at hargs
      have hpos := List.count_pos_iff.mpr hp
      refine iff_of_false (fun hsplits => ?_) (by omega)
      have hat := (hsplits.within h.length (by rw [hargs])).2
      exact hat (by simp)
    · rw [if_neg hp] at hargs
      refine iff_of_true ⟨fun u q hu => absurd hu (hb _ _), fun u hu => absurd hu (hb _ _),
        fun _ k q hk hk' hq hsplit => ?_, fun _ hno => absurd hmem hno, fun _ hcount => ?_,
        fun i hi => ?_⟩ (by rw [List.count_eq_zero_of_not_mem hp])
      · obtain ⟨rfl, rfl⟩ := append_cons_inj hh hk' hsplit
        refine ⟨by rw [hargs]; exact if_neg hk, ?_⟩
        rw [hargs, Option.map_some, ← List.drop_drop, List.drop_left]
        rfl
      · rw [count_append hh, List.count_eq_zero_of_not_mem hp] at hcount
        omega
      · rw [hargs] at hi
        obtain rfl := Option.some.inj hi
        refine ⟨by simp, ?_⟩
        rw [List.getElem?_append_right (by omega), Nat.add_sub_cancel_left,
          List.getElem?_cons_succ]
        exact fun hat => hp (List.mem_of_getElem? hat)
  · rw [colonService_none hmem] at hargs
    have hcount := List.count_eq_zero_of_not_mem hmem
    have hpassed : Passed host host none := ⟨by rw [hargs]; rfl, by rw [hargs]; rfl⟩
    refine iff_of_true ⟨fun u q hu => absurd hu (hb _ _), fun u hu => absurd hu (hb _ _),
      fun _ k q _ _ _ hsplit => ?_, fun _ _ => hpassed, fun _ _ => hpassed, fun i hi => ?_⟩
      (by omega)
    · exact absurd (hsplit ▸ List.mem_append_right k List.mem_cons_self) hmem
    · rw [hargs] at hi
      cases hi

/-- **Which hosts are split as they should be.** -/
theorem splits_iff (host : Bytes) : Splits host ↔ Splittable host := by
  by_cases hb : ∃ v6 rest, Boxed host v6 rest
  · obtain ⟨v6, rest, hb⟩ := hb
    have hleft : Splittable host ↔ rest = [] ∨ (∃ p, rest = 58 :: p ∧ p.head? ≠ some 58) ∨
        rest.head? ≠ some 58 ∧ 2 ≤ host.count 58 := by
      rw [Splittable, or_iff_left fun hno => hno.1 v6 rest hb]
      constructor
      · rintro ⟨u, r, hu, hr⟩
        obtain ⟨-, rfl⟩ := hb.unique hu
        exact hr
      · exact fun hr => ⟨v6, rest, hb, hr⟩
    rw [hleft]
    by_cases hne : rest = []
    · subst hne
      exact iff_of_true (splits_boxed hb) (.inl rfl)
    · rw [or_iff_right hne]
      by_cases hcolon : rest.head? = some 58
      · obtain ⟨p, rfl⟩ := List.head?_eq_some_iff.mp hcolon
        rw [splits_boxedPort_iff hb, or_iff_left fun hno => hno.1 hcolon]
        constructor
        · exact fun hp => ⟨p, rfl, hp⟩
        · rintro ⟨q, hq, hp⟩
          obtain rfl := (List.cons.inj hq).2
          exact hp
      · rw [splits_other_iff hb hne hcolon, and_iff_right hcolon, or_iff_right]
        rintro ⟨q, rfl, -⟩
        exact hcolon rfl
  · have hb : ∀ v6 rest, ¬Boxed host v6 rest := fun v6 rest h => hb ⟨v6, rest, h⟩
    rw [splits_unboxed_iff hb, Splittable, and_iff_right hb, or_iff_right]
    rintro ⟨v6, rest, h, -⟩
    exact hb v6 rest h

/-- Of a bare literal the service is `::1`. -/
theorem not_splits : ¬Splits (bytes "::1") := by
  intro h
  exact (h.within 0 (by decide)).2 (by decide)

end Address

end Sylar
