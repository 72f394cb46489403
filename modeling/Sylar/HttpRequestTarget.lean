import Sylar.HttpRequestText
import Sylar.UriPrint

/-!
# The target of a request for a URI

What `Uri::Create` saves is put into a request line. The two grammars
are not the same: behind its first `/`, `http11_parser.rl` takes another
`/` for the beginning of an authority, while a path of `uri.rl` may begin
with `//`. Any other path is a path of a request (`path_of_uri`), and a
query and a fragment are what they were (`uriText_of_query`).
-/

namespace Sylar

open Grammar Scanner UriGrammar

namespace Http11

variable {relaxed : Bool}

set_option maxRecDepth 10000 in
/-- The bytes of the productions are on the edges. -/
theorem pchar_chars : ∀ b : UInt8,
    ((ofRanges (notAscii ++ unreserved ++ subDelims ++ ones [58, 64])).testBit b.toNat = true →
      ∀ relaxed, isUriChar relaxed b = true ∧ (go (one 32) 4).takes b = false ∧
        (go (pchar ++ if relaxed then moreDelims else []) 26).takes b = true ∧
        (go (pathChar ++ if relaxed then moreDelims else []) 26).takes b = true) ∧
    ((ofRanges UriGrammar.xdigit).testBit b.toNat = true → isXdigit b = true) ∧
    ((ofRanges (ones [47, 63])).testBit b.toNat = true →
      ∀ relaxed, isUriChar relaxed b = true) := by
  decide

theorem pctEncoded_cases {u : Bytes} (h : Is .pctEncoded u) :
    ∃ a b, u = [37, a, b] ∧ isXdigit a = true ∧ isXdigit b = true := by
  obtain ⟨r, hr, hu⟩ := is_iff.mp h
  obtain rfl := List.mem_singleton.mp hr
  obtain ⟨v, rfl, hv⟩ := (derives_chr (by decide)).mp hu
  obtain ⟨a, v, rfl, ha, hv⟩ := derives_cls.mp hv
  obtain ⟨b, v, rfl, hb, hv⟩ := derives_cls.mp hv
  obtain rfl := derives_nil.mp hv
  exact ⟨a, b, rfl, (pchar_chars a).2.1 ha, (pchar_chars b).2.1 hb⟩

/-- A byte or an escape. -/
theorem pchar_cases {u : Bytes} (h : Is .pchar u) :
    (∃ b : UInt8, u = [b] ∧
      (ofRanges (notAscii ++ unreserved ++ subDelims ++ ones [58, 64])).testBit b.toNat = true) ∨
    ∃ a b, u = [37, a, b] ∧ isXdigit a = true ∧ isXdigit b = true := by
  obtain ⟨r, hr, hu⟩ := is_iff.mp h
  obtain rfl | hr := List.mem_cons.mp hr
  · obtain ⟨b, v, rfl, hb, hv⟩ := derives_cls.mp hu
    obtain rfl := derives_nil.mp hv
    exact .inl ⟨b, rfl, hb⟩
  · obtain rfl := List.mem_singleton.mp hr
    exact .inr (pctEncoded_cases hu)

/-! ## The query and the fragment -/

theorem uriText_of_pchar {u v : Bytes} (hu : Is .pchar u) (hv : UriText relaxed v) :
    UriText relaxed (u ++ v) := by
  obtain ⟨b, rfl, hb⟩ | ⟨a, b, rfl, ha, hb⟩ := pchar_cases hu
  · exact .char ((pchar_chars b).1 hb relaxed).1 hv
  · exact .pctEncoded ha hb hv

/-- The rounds of the two repetitions. -/
theorem uriText_of_repeated {n : UriNt} {w : Bytes}
    (hn : rules n = [] :: ([[.nt .pchar], [cls (ones [47, 63])]]).map (· ++ [.nt n]))
    (h : Is n w) : UriText relaxed w := by
  refine Derives.repeated hn .nil (fun r hr u v hu hv => ?_) h
  obtain rfl | hr := List.mem_cons.mp hr
  · exact uriText_of_pchar hu hv
  · obtain rfl := List.mem_singleton.mp hr
    obtain ⟨b, w, rfl, hb, hw⟩ := derives_cls.mp hu
    obtain rfl := derives_nil.mp hw
    exact .char ((pchar_chars b).2.2 hb relaxed) hv

theorem uriText_of_query {w : Bytes} (h : Is .query w) : UriText relaxed w :=
  uriText_of_repeated rfl h

theorem uriText_of_fragment {w : Bytes} (h : Is .fragment w) : UriText relaxed w :=
  uriText_of_repeated rfl h

/-! ## The path -/

variable (relaxed) in
/-- Behind the first byte of the first segment, and of another one. -/
theorem walk_pchar {u : Bytes} (hu : Is .pchar u) :
    walk (machine relaxed) 33 u = some 26 ∧ walk (machine relaxed) 26 u = some 26 := by
  have hrow : machine relaxed 33 = ⟨one 32, [.requestPath, .requestUri], 4⟩ ::
      go (pchar ++ if relaxed then moreDelims else []) 26 :: _ := rfl
  have hrow' : machine relaxed 26 = ⟨one 32, [.requestPath, .requestUri], 4⟩ ::
      go (pathChar ++ if relaxed then moreDelims else []) 26 :: _ := rfl
  obtain ⟨b, rfl, hb⟩ | ⟨a, b, rfl, ha, hb⟩ := pchar_cases hu
  · obtain ⟨-, hskip, hfirst, hnext⟩ := (pchar_chars b).1 hb relaxed
    exact ⟨walk_cons (move_second hrow hskip hfirst) [],
      walk_cons (move_second hrow' hskip hnext) []⟩
  · have hescape : walk (machine relaxed) 27 [a, b] = some 26 := by
      have hrow : machine relaxed 27 = [go Http11.xdigit 28] := rfl
      have hrow' : machine relaxed 28 = [go Http11.xdigit 26] := rfl
      exact (walk_cons (move_head hrow ((char_takes a).2.2 ha)) [b]).trans
        (walk_cons (move_head hrow' ((char_takes b).2.2 hb)) [])
    have hpct : move (machine relaxed) 33 37 = some ([], 27) ∧
        move (machine relaxed) 26 37 = some ([], 27) := by
      cases relaxed <;> exact ⟨rfl, rfl⟩
    exact ⟨(walk_cons hpct.1 _).trans hescape, (walk_cons hpct.2 _).trans hescape⟩

/-- A segment without its first byte, and further segments. -/
def Tail (relaxed : Bool) (w : Bytes) : Prop := walk (machine relaxed) 26 w = some 26

theorem Tail.append {u v : Bytes} (hu : Tail relaxed u) (hv : Tail relaxed v) :
    Tail relaxed (u ++ v) :=
  (walk_append hu v).trans hv

theorem tail_segment {w : Bytes} (h : Is .segment w) : Tail relaxed w := by
  have hrules : rules .segment = [] :: ([[.nt .pchar]]).map (· ++ [.nt .segment]) := rfl
  refine Derives.repeated (L := Tail relaxed) hrules rfl (fun r hr u v hu hv => ?_) h
  obtain rfl := List.mem_singleton.mp hr
  exact Tail.append (walk_pchar relaxed hu).2 hv

theorem tail_segments {w : Bytes} (h : Is .segments w) : Tail relaxed w := by
  have hslash : move (machine relaxed) 26 47 = some ([], 26) := by cases relaxed <;> rfl
  have hrules : rules .segments =
      [] :: ([[chr 47, .nt .segment]]).map (· ++ [.nt .segments]) := rfl
  refine Derives.repeated (L := Tail relaxed) hrules rfl (fun r hr u v hu hv => ?_) h
  obtain rfl := List.mem_singleton.mp hr
  obtain ⟨w, rfl, hw⟩ := (derives_chr (by decide)).mp hu
  have hsegment : Tail relaxed (47 :: w) := (walk_cons hslash w).trans (tail_segment hw)
  exact hsegment.append hv

/-- A path that begins with one `/` is a path of a request. -/
theorem path_of_uri {path : Bytes} (h : Is .pathAbempty path) (hne : path ≠ [])
    (hslash : ¬[47, 47] <+: path) : Path relaxed path := by
  have hsplit : Derives rules [chr 47, .nt .segment, .nt .segments] path := by
    obtain ⟨r, hr, hpath⟩ := is_iff.mp h
    obtain rfl | hr := List.mem_cons.mp hr
    · exact hpath
    · obtain rfl := List.mem_singleton.mp hr
      obtain ⟨r, hr, hpath⟩ := is_iff.mp hpath
      obtain rfl | hr := List.mem_cons.mp hr
      · exact absurd (derives_nil.mp hpath) hne
      · obtain rfl := List.mem_singleton.mp hr
        exact hpath
  obtain ⟨w, rfl, hw⟩ := (derives_chr (by decide)).mp hsplit
  obtain ⟨first, rest, rfl, hfirst, hrest⟩ := derives_part.mp hw
  have hend : ∀ cs ∈ [33, 26],
      move (machine relaxed) cs 32 = some ([.requestPath, .requestUri], 4) := by
    cases relaxed <;> decide
  obtain ⟨r, hr, hpchar⟩ := is_iff.mp hfirst
  obtain rfl | hr := List.mem_cons.mp hr
  · -- an empty segment is all there is, or another `/` follows
    obtain rfl := derives_nil.mp hpchar
    obtain ⟨r, hr, hmore⟩ := is_iff.mp hrest
    obtain rfl | hr := List.mem_cons.mp hr
    · obtain rfl := derives_nil.mp hmore
      exact ⟨[], 33, rfl, rfl, hend 33 (by decide)⟩
    · obtain rfl := List.mem_singleton.mp hr
      obtain ⟨w, rfl, -⟩ := (derives_chr (by decide)).mp hmore
      exact absurd ⟨w, rfl⟩ hslash
  · obtain rfl := List.mem_singleton.mp hr
    obtain ⟨u, v, rfl, hu, hv⟩ := derives_part.mp hpchar
    refine ⟨_, 26, rfl, ?_, hend 26 (by decide)⟩
    rw [List.append_assoc, walk_append (walk_pchar relaxed hu).1]
    exact (tail_segment hv).append (tail_segments hrest)

end Http11

/-! ## The host -/

namespace UriGrammar

end UriGrammar

/-! ## What is saved -/

/-- A value that is read as it is written. -/
def PlainValue (val : Bytes) : Prop := val.head? ≠ some 32 ∧ ∀ b ∈ val, isValueChar b = true

instance (val : Bytes) : Decidable (PlainValue val) := inferInstanceAs (Decidable (_ ∧ _))

namespace Uri

/-- What `Create` saves is derived from the productions. -/
theorem saved_derived {url : Bytes} {uri : Uri} (h : create url = .ok (some uri)) :
    (uri.path ≠ [] → Is .pathAbempty uri.path) ∧ Is .query uri.query ∧ Is .fragment uri.fragment ∧
      Is .host uri.host := by
  have hquery : Is .query [] := is_iff.mpr ⟨[], by simp [rules], .nil⟩
  have hfragment : Is .fragment [] := is_iff.mpr ⟨[], by simp [rules], .nil⟩
  have hname : Is .regName [] := is_iff.mpr ⟨[], by simp [rules], .nil⟩
  have hhost : Is .host [] := is_iff.mpr ⟨[.nt .regName], by simp [rules], hname⟩
  obtain ⟨P, hP, rfl⟩ := derives_iff.mp (is_of_create h)
  obtain ⟨-, rfl⟩ := (create_text_iff hP).mp h
  refine ⟨fun hne => ?_, is_getD hquery hP.query, is_getD hfragment hP.fragment,
    is_getD hhost fun w hw => ?_⟩
  · have hpath := hP.path
    rw [UriParts.saved] at hne ⊢
    simp only at hne ⊢
    split at hne
    · rename_i habsolute
      obtain ⟨a, ha⟩ := Option.isSome_iff_exists.mp habsolute.2
      rw [ha] at hpath
      rw [if_pos habsolute]
      exact hpath
    · exact absurd rfl hne
  · obtain ⟨a, ha, rfl⟩ := Option.map_eq_some_iff.mp hw
    exact (hP.authority a ha).host

/-- It is a target, unless its path begins with `//`. -/
theorem getPath_path {relaxed : Bool} {url : Bytes} {uri : Uri} (h : create url = .ok (some uri))
    (hslash : ¬[47, 47] <+: uri.path) : Http11.Path relaxed uri.getPath := by
  rw [getPath]
  split
  · exact ⟨[], 33, rfl, rfl, by cases relaxed <;> rfl⟩
  · rename_i hne
    exact Http11.path_of_uri ((saved_derived h).1 hne) hne hslash

end Uri

end Sylar
