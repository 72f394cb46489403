import Sylar.UriRun

/-!
# What the accessors give back

Of the parts in the text, `Create` gives back the scheme, the host, the
query and the fragment. The userinfo it gives back unless a digit follows
its first `:` (`recovered_iff`), the path only behind a scheme and an
authority (`pathKept_iff`), and the port as long as it fits a `uint16_t`
(`portExact_iff`): nothing looks at its size.
-/

namespace Sylar

open Grammar

namespace UriParts

variable {P : UriParts}

/-- Without the fault there is a URI. -/
theorem create_saved (hP : P.Valid) (hport : P.Absolute → P.port ≠ some []) :
    Uri.create P.text = .ok (some P.saved) :=
  (Uri.create_text_iff hP).mpr ⟨fun h => hport h.1 h.2, rfl⟩

/-! ## The userinfo -/

/-- A digit follows the first `:`. -/
def DigitBehindColon (u : Bytes) : Prop :=
  ∃ a d w, u = a ++ 58 :: d :: w ∧ 58 ∉ a ∧ 48 ≤ d ∧ d ≤ 57

theorem savedUserinfo_digit {a w : Bytes} {d : UInt8} (ha : 58 ∉ a) (hd : 48 ≤ d ∧ d ≤ 57) :
    savedUserinfo (a ++ 58 :: d :: w) = d :: w := by
  have hdrop : (a ++ 58 :: d :: w).dropWhile (· ≠ 58) = 58 :: d :: w := by
    rw [List.dropWhile_append_of_pos fun b hb => decide_eq_true (ne_of_mem_of_not_mem hb ha)]
    rfl
  rw [savedUserinfo, hdrop]
  exact if_pos hd

theorem savedUserinfo_eq_iff {u : Bytes} : savedUserinfo u = u ↔ ¬DigitBehindColon u := by
  constructor
  · rintro hsaved ⟨a, d, w, rfl, ha, hd⟩
    have hlength := congrArg List.length hsaved
    rw [savedUserinfo_digit ha hd] at hlength
    simp only [List.length_append, List.length_cons] at hlength
    omega
  · intro hnot
    obtain ⟨a, ha, ⟨-, hsaved⟩ | ⟨-, hsaved⟩ | ⟨d, w, hu, hsaved⟩⟩ := Uri.userinfo_cases u
    · exact hsaved
    · exact hsaved
    · rw [hsaved, if_neg fun hd => hnot ⟨a, d, w, hu, fun h => ha 58 h rfl, hd⟩]

/-- `Create` succeeds, and the accessors give back the parts. -/
def Recovered (P : UriParts) : Prop :=
  ∃ u, Uri.create P.text = .ok (some u) ∧ u.scheme = P.scheme.getD [] ∧
    u.userinfo = (P.authority.bind (·.userinfo)).getD [] ∧
    u.host = (P.authority.map (·.host)).getD [] ∧
    u.getPath = (if P.path = [] then bytes "/" else P.path) ∧ u.query = P.query.getD [] ∧
    u.fragment = P.fragment.getD [] ∧ u.port = decimalValue (P.port.getD [])

theorem savedPort_of_lt {d : Bytes} (h : decimalValue d < 2 ^ 31) :
    savedPort d = decimalValue d := by
  rw [savedPort, min_eq_left (by omega), toInt32_eq h]

theorem decimalValue_lt {d : Bytes} (h : ∀ b ∈ d, 48 ≤ b ∧ b ≤ 57) :
    decimalValue d < 10 ^ d.length := by
  -- behind any number read so far
  have hfold : ∀ n, d.foldl (fun n b => n * 10 + (b.toNat - 48)) n + 1 ≤
      (n + 1) * 10 ^ d.length := by
    induction d with
    | nil => exact fun n => by simp
    | cons b d ih =>
        intro n
        obtain ⟨hb, hd⟩ := List.forall_mem_cons.mp h
        have hlt := ((decimal_digit b).1 hb).1.2
        calc d.foldl (fun n b => n * 10 + (b.toNat - 48)) (n * 10 + (b.toNat - 48)) + 1
            ≤ (n * 10 + (b.toNat - 48) + 1) * 10 ^ d.length := ih hd _
          _ ≤ ((n + 1) * 10) * 10 ^ d.length := Nat.mul_le_mul_right _ (by omega)
          _ = (n + 1) * 10 ^ (d.length + 1) := by rw [Nat.mul_assoc, Nat.pow_succ']
  have hzero := hfold 0
  rw [Nat.zero_add, Nat.one_mul] at hzero
  exact hzero

/-- Behind a scheme and an authority, with a port that `atoi` can read: the
userinfo is what may be lost. -/
theorem recovered_iff {scheme path : Bytes} {a : UriAuthority} {query fragment : Option Bytes}
    (hP : Valid ⟨some scheme, some a, path, query, fragment⟩)
    (hport : ∀ d, a.port = some d → d ≠ [] ∧ d.length ≤ 5) :
    Recovered ⟨some scheme, some a, path, query, fragment⟩ ↔
      ∀ u, a.userinfo = some u → ¬DigitBehindColon u := by
  have hfault : a.port ≠ some [] := fun h => (hport [] h).1 rfl
  have hcreate := create_saved hP fun _ => hfault
  have hvalue : savedPort (a.port.getD []) = decimalValue (a.port.getD []) := by
    refine savedPort_of_lt ?_
    cases hd : a.port with
    | none => decide
    | some d =>
        have hlt := decimalValue_lt (UriGrammar.port_bytes ((hP.authority a rfl).port d hd))
        have hpow : 10 ^ d.length ≤ 10 ^ 5 := Nat.pow_le_pow_right (by decide) (hport d hd).2
        show decimalValue d < 2 ^ 31
        omega
  have huserinfo : savedUserinfo (a.userinfo.getD []) = a.userinfo.getD [] ↔
      ∀ u, a.userinfo = some u → ¬DigitBehindColon u := by
    cases a.userinfo with
    | none => simp [savedUserinfo]
    | some u => simp [savedUserinfo_eq_iff]
  have hpath : Uri.getPath (saved ⟨some scheme, some a, path, query, fragment⟩) =
      if path = [] then bytes "/" else path := rfl
  rw [← huserinfo]
  constructor
  · rintro ⟨u, hu, -, hui, -⟩
    obtain ⟨-, rfl⟩ := (Uri.create_text_iff hP).mp hu
    exact hui
  · intro hui
    exact ⟨_, hcreate, rfl, hui, rfl, hpath, rfl, rfl, hvalue⟩

/-- `http://u:pw@h:80/p?q#f` comes back. -/
theorem recovered_iff_password :
    Recovered ⟨some (bytes "http"), some ⟨some (bytes "u:pw"), bytes "h", some (bytes "80")⟩,
      bytes "/p", some (bytes "q"), some (bytes "f")⟩ := by
  refine (recovered_iff (valid_of_checked (by decide)) ?_).mpr ?_
  · rintro d ⟨⟩
    decide
  · rintro u ⟨⟩
    exact savedUserinfo_eq_iff.mp (by decide)

/-- Of `http://u:1@h/` the userinfo is `1`. -/
theorem not_recovered :
    Valid ⟨some (bytes "http"), some ⟨some (bytes "u:1"), bytes "h", none⟩, bytes "/", none, none⟩ ∧
    ¬Recovered ⟨some (bytes "http"), some ⟨some (bytes "u:1"), bytes "h", none⟩, bytes "/", none,
      none⟩ := by
  have hP : Valid ⟨some (bytes "http"), some ⟨some (bytes "u:1"), bytes "h", none⟩, bytes "/",
      none, none⟩ := valid_of_checked (by decide)
  refine ⟨hP, ?_⟩
  rintro ⟨u, hu, -, hui, -⟩
  obtain ⟨-, rfl⟩ := (Uri.create_text_iff hP).mp hu
  exact absurd hui (by decide)

/-! ## The path -/

/-- `Create` succeeds, and `getPath` gives back the path. -/
def PathKept (P : UriParts) : Prop :=
  ∃ u, Uri.create P.text = .ok (some u) ∧
    u.getPath = if P.path = [] then bytes "/" else P.path

/-- Without a scheme or without an authority, no path but the default is
kept. -/
theorem pathKept_iff (hP : P.Valid) (hrelative : P.scheme = none ∨ P.authority = none) :
    P.PathKept ↔ P.path = [] ∨ P.path = bytes "/" := by
  have habs : ¬P.Absolute := by
    rintro ⟨hscheme, hauthority⟩
    rcases hrelative with h | h
    · rw [h] at hscheme
      cases hscheme
    · rw [h] at hauthority
      cases hauthority
  have hcreate := create_saved hP fun h => absurd h habs
  have hpath : P.saved.getPath = bytes "/" := by
    rw [Uri.getPath, saved, if_neg habs, if_pos rfl]
  constructor
  · rintro ⟨u, hu, hkept⟩
    obtain ⟨-, rfl⟩ := (Uri.create_text_iff hP).mp hu
    rw [hpath] at hkept
    split at hkept
    · rename_i hnil
      exact .inl hnil
    · exact .inr hkept.symm
  · intro h
    refine ⟨_, hcreate, ?_⟩
    rw [hpath]
    split
    · rfl
    · rename_i hne
      exact (h.resolve_left hne).symm

/-- `//h/` keeps its path. -/
theorem pathKept_iff_slash : PathKept ⟨none, some ⟨none, bytes "h", none⟩, bytes "/", none, none⟩ :=
  (pathKept_iff (valid_of_checked (by decide)) (.inl rfl)).mpr (.inr rfl)

/-- `//h/a` does not. -/
theorem not_pathKept :
    Valid ⟨none, some ⟨none, bytes "h", none⟩, bytes "/a", none, none⟩ ∧
    ¬PathKept ⟨none, some ⟨none, bytes "h", none⟩, bytes "/a", none, none⟩ := by
  have hP : Valid ⟨none, some ⟨none, bytes "h", none⟩, bytes "/a", none, none⟩ :=
    valid_of_checked (by decide)
  refine ⟨hP, ?_⟩
  rintro ⟨u, hu, hkept⟩
  obtain ⟨-, rfl⟩ := (Uri.create_text_iff hP).mp hu
  exact absurd hkept (by decide)

/-! ## The port -/

/-- The port for the scheme. -/
def defaultPort (scheme : Bytes) : Int :=
  if scheme = bytes "http" ∨ scheme = bytes "ws" then 80
  else if scheme = bytes "https" ∨ scheme = bytes "wss" then 443
  else 0

/-- A port that fits is the one of the URI, and of the address that is made
of it; a text with any other is rejected. `d` are the digits. -/
structure PortExact (host : Endian) (lookup : Bytes → Option IPAddress) (P : UriParts)
    (d : Bytes) : Prop where
  exact : decimalValue d ≤ 65535 → ∃ u, Uri.create P.text = .ok (some u) ∧
    u.getPort = (if decimalValue d = 0 then defaultPort (P.scheme.getD []) else decimalValue d) ∧
    ∀ addr, u.createAddress host lookup = some addr → ((addr.getPort host).toNat : Int) = u.getPort
  rejected : 65535 < decimalValue d → Uri.create P.text = .ok none

theorem portExact_iff (host : Endian) (lookup : Bytes → Option IPAddress) (hP : P.Valid) {d : Bytes}
    (hport : P.port = some d) (hne : d ≠ []) :
    P.PortExact host lookup d ↔ decimalValue d ≤ 65535 := by
  have hcreate := create_saved hP fun _ h => hne (Option.some.inj (hport.symm.trans h))
  constructor
  · intro h
    by_contra hlt
    cases (h.rejected (Nat.lt_of_not_le hlt)).symm.trans hcreate
  · intro hle
    have hsaved : P.saved.port = decimalValue d := by
      rw [saved, hport]
      exact savedPort_of_lt (by show decimalValue d < 2 ^ 31; omega)
    have hget : P.saved.getPort =
        if decimalValue d = 0 then defaultPort (P.scheme.getD []) else decimalValue d := by
      rw [Uri.getPort, hsaved]
      by_cases hzero : decimalValue d = 0
      · rw [if_pos hzero, hzero]
        rfl
      · rw [if_neg hzero, if_pos (by omega)]
    have hbounds : 0 ≤ P.saved.getPort ∧ P.saved.getPort ≤ 65535 := by
      rw [hget, defaultPort]
      split_ifs <;> omega
    refine ⟨fun _ => ⟨_, hcreate, hget, fun addr haddr => ?_⟩, fun h => absurd hle (by omega)⟩
    rw [Uri.createAddress] at haddr
    split at haddr
    · obtain rfl := Option.some.inj haddr
      rw [IPAddress.getPort_setPort, BitVec.toNat_ofInt]
      omega
    · cases haddr

/-- `http://h:65535`, with an address behind the name. -/
theorem portExact_iff_max :
    PortExact .little (fun _ => some (.ipv4 (IPv4Address.new .little 0x7f000001 0)))
      ⟨some (bytes "http"), some ⟨none, bytes "h", some (bytes "65535")⟩, [], none, none⟩
      (bytes "65535") :=
  (portExact_iff .little _ (valid_of_checked (by decide)) rfl (by decide)).mpr (by decide)

/-- `http://h:65536` is accepted. -/
theorem not_portExact :
    Valid ⟨some (bytes "http"), some ⟨none, bytes "h", some (bytes "65536")⟩, [], none, none⟩ ∧
    ∀ host lookup, ¬PortExact host lookup
      ⟨some (bytes "http"), some ⟨none, bytes "h", some (bytes "65536")⟩, [], none, none⟩
      (bytes "65536") := by
  have hP : Valid ⟨some (bytes "http"), some ⟨none, bytes "h", some (bytes "65536")⟩, [], none,
    none⟩ := valid_of_checked (by decide)
  refine ⟨hP, fun host lookup h => ?_⟩
  have hcreate := create_saved hP fun _ h => absurd (Option.some.inj h) (by decide)
  cases (h.rejected (by decide)).symm.trans hcreate

end UriParts

end Sylar
