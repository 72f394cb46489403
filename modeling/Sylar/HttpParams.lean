import Sylar.HttpRequestText
import Sylar.UrlCodec

/-!
# Parameters and cookies

The maps of an `HttpRequest` that are filled from the query, the body
and the header `cookie` when they are first read, or by `initParam`.
What has been parsed does not replace what is there.
-/

namespace Sylar

namespace MapType

/-- `m.insert(std::make_pair(key, val))`. -/
def insert (m : MapType) (key val : Bytes) : MapType :=
  match m with
  | [] => [(key, val)]
  | (k, v) :: rest =>
      match strcasecmp (cStr key) (cStr k) with
      | .lt => (key, val) :: (k, v) :: rest
      | .eq => (k, v) :: rest
      | .gt => (k, v) :: insert rest key val

/-- `m.erase(key)`. -/
def erase (m : MapType) (key : Bytes) : MapType :=
  m.filter fun e => strcasecmp (cStr key) (cStr e.1) ≠ .eq

def insertAll (m : MapType) (pairs : List (Bytes × Bytes)) : MapType :=
  pairs.foldl (fun m e => m.insert e.1 e.2) m

/-- `getAs<T>(m, key, dflt)`, `cast` the conversion from `long double`. -/
def getAsOf {T : Type} (cast : LongDouble → T) (m : MapType) (key : Bytes) (dflt : T) : T :=
  match m.find key with
  | none => dflt
  | some v =>
      match stold v with
      | none => dflt
      | some x => cast x

end MapType

/-- `strcasestr(haystack, needle) != nullptr`. -/
def strcasestr (haystack needle : Bytes) : Bool :=
  (haystack.map tolower).tails.any (needle.map tolower).isPrefixOf

namespace HttpRequest

/-- The pairs that `PARSE_PARAM` finds in what is left of `str`: a name up
to the next `=`, and its value up to the next `flag`. -/
def parseParam (flag : UInt8) : Nat → Bytes → List (Bytes × Bytes)
  | 0, _ => []
  | fuel + 1, str =>
      match str.dropWhile (· ≠ 61) with
      | [] => []
      | _ :: rest =>
          (StringUtil.trim (str.takeWhile (· ≠ 61)) StringUtil.blanks,
              StringUtil.urlDecode true (rest.takeWhile (· ≠ flag))) ::
            match rest.dropWhile (· ≠ flag) with
            | [] => []
            | _ :: rest => parseParam flag fuel rest

def queryPairs (q : HttpRequest) : List (Bytes × Bytes) := parseParam 38 q.query.length q.query

/-- The content type is the one of a form. -/
def isForm (q : HttpRequest) : Bool :=
  strcasestr (cStr (q.getHeader (bytes "content-type") []))
    (bytes "application/x-www-form-urlencoded")

def bodyPairs (q : HttpRequest) : List (Bytes × Bytes) :=
  if q.isForm then parseParam 38 q.body.length q.body else []

def cookiePairs (q : HttpRequest) : List (Bytes × Bytes) :=
  let cookie := q.getHeader (bytes "cookie") []
  parseParam 59 cookie.length cookie

end HttpRequest

/-- A request with its maps. -/
structure ParamRequest extends HttpRequest where
  parserParamFlag : UInt8
  params : MapType
  cookies : MapType
deriving Repr, DecidableEq

namespace ParamRequest

/-- A request whose parts have been set. -/
def ofRequest (q : HttpRequest) : ParamRequest :=
  { q with parserParamFlag := 0, params := [], cookies := [] }

def initQueryParam (r : ParamRequest) : ParamRequest :=
  if r.parserParamFlag &&& 0x1 ≠ 0 then r
  else { r with
    params := r.params.insertAll r.queryPairs
    parserParamFlag := r.parserParamFlag ||| 0x1 }

def initBodyParam (r : ParamRequest) : ParamRequest :=
  if r.parserParamFlag &&& 0x2 ≠ 0 then r
  else { r with
    params := r.params.insertAll r.bodyPairs
    parserParamFlag := r.parserParamFlag ||| 0x2 }

def initCookies (r : ParamRequest) : ParamRequest :=
  if r.parserParamFlag &&& 0x4 ≠ 0 then r
  else { r with
    cookies := r.cookies.insertAll r.cookiePairs
    parserParamFlag := r.parserParamFlag ||| 0x4 }

def initParam (r : ParamRequest) : ParamRequest := r.initQueryParam.initBodyParam.initCookies

def setParam (r : ParamRequest) (key val : Bytes) : ParamRequest :=
  { r with params := r.params.set key val }

def setCookie (r : ParamRequest) (key val : Bytes) : ParamRequest :=
  { r with cookies := r.cookies.set key val }

def delParam (r : ParamRequest) (key : Bytes) : ParamRequest :=
  { r with params := r.params.erase key }

def delCookie (r : ParamRequest) (key : Bytes) : ParamRequest :=
  { r with cookies := r.cookies.erase key }

def getParam (r : ParamRequest) (key dflt : Bytes) : Bytes × ParamRequest :=
  let r := r.initQueryParam.initBodyParam
  ((r.params.find key).getD dflt, r)

def getCookie (r : ParamRequest) (key dflt : Bytes) : Bytes × ParamRequest :=
  let r := r.initCookies
  ((r.cookies.find key).getD dflt, r)

/-- The result, and what is in `*val` if it has been assigned. -/
def hasParam (r : ParamRequest) (key : Bytes) (val : Bool) : (Bool × Option Bytes) × ParamRequest :=
  let r := r.initQueryParam.initBodyParam
  (((r.params.find key).isSome, if val then r.params.find key else none), r)

def hasCookie (r : ParamRequest) (key : Bytes) (val : Bool) :
    (Bool × Option Bytes) × ParamRequest :=
  let r := r.initCookies
  (((r.cookies.find key).isSome, if val then r.cookies.find key else none), r)

def getParamAs {T : Type} (cast : LongDouble → T) (r : ParamRequest) (key : Bytes) (dflt : T) :
    T × ParamRequest :=
  let r := r.initQueryParam.initBodyParam
  (r.params.getAsOf cast key dflt, r)

end ParamRequest

/-! ## Looking up what was inserted -/

theorem strcasecmp_lt_trans : ∀ {a b c : Bytes}, strcasecmp a b = .lt → strcasecmp b c = .lt →
    strcasecmp a c = .lt
  | [], _ :: _, _ :: _, _, _ => rfl
  | [], [], _, h, _ => nomatch h
  | [], _ :: _, [], _, h => nomatch h
  | _ :: _, [], _, h, _ => nomatch h
  | _ :: _, _ :: _, [], _, h => nomatch h
  | a :: as, b :: bs, c :: cs, hab, hbc => by
      rw [strcasecmp] at hab hbc ⊢
      split at hab
      · rename_i hlt
        split at hbc
        · rename_i hlt'
          rw [if_pos (UInt8.lt_trans hlt hlt')]
        split at hbc
        · cases hbc
        · rename_i hle hge
          have heq : tolower b = tolower c :=
            UInt8.le_antisymm (UInt8.not_lt.mp hge) (UInt8.not_lt.mp hle)
          rw [if_pos (heq ▸ hlt)]
      split at hab
      · cases hab
      · rename_i hle hge
        have heq : tolower a = tolower b :=
          UInt8.le_antisymm (UInt8.not_lt.mp hge) (UInt8.not_lt.mp hle)
        rw [heq]
        split at hbc
        · rename_i hlt
          rw [if_pos hlt]
        split at hbc
        · cases hbc
        · rename_i hle' hge'
          rw [if_neg hle', if_neg hge']
          exact strcasecmp_lt_trans hab hbc

theorem strcasecmp_gt : ∀ {a b : Bytes}, strcasecmp a b = .gt → strcasecmp b a = .lt
  | [], [], h => nomatch h
  | [], _ :: _, h => nomatch h
  | _ :: _, [], _ => rfl
  | a :: as, b :: bs, h => by
      rw [strcasecmp] at h ⊢
      split at h
      · cases h
      split at h
      · rename_i hlt
        rw [if_pos hlt]
      · rename_i hle hge
        rw [if_neg hge, if_neg hle]
        exact strcasecmp_gt h

namespace MapType

/-- The order of a `std::map`. -/
def Ordered (m : MapType) : Prop :=
  m.Pairwise fun a b => strcasecmp (cStr a.1) (cStr b.1) = .lt

variable {m : MapType} {key key' val : Bytes} {k v : Bytes} {rest : MapType}

theorem not_same_of_lt (h : strcasecmp (cStr key) (cStr k) = .lt) : ¬SameName key k := by
  intro hsame
  rw [SameName, h] at hsame
  cases hsame

theorem not_same_of_gt (h : strcasecmp (cStr key) (cStr k) = .gt) : ¬SameName key k := by
  intro hsame
  rw [SameName, h] at hsame
  cases hsame

/-- What is in front of all keys is not there. -/
theorem find_none_of_lt (hlt : strcasecmp (cStr key) (cStr k) = .lt)
    (hm : Ordered ((k, v) :: rest)) (hsame : SameName key' key) :
    find ((k, v) :: rest) key' = none := by
  obtain ⟨hhead, -⟩ := List.pairwise_cons.mp hm
  have hnone : ∀ e ∈ (k, v) :: rest, ¬SameName key' e.1 := by
    intro e he hother
    have hless : strcasecmp (cStr key) (cStr e.1) = .lt := by
      obtain rfl | he := List.mem_cons.mp he
      · exact hlt
      · exact strcasecmp_lt_trans hlt (hhead e he)
    exact not_same_of_lt hless (hsame.symm.trans hother)
  rw [find, List.find?_eq_none.mpr]
  · rfl
  · intro e he
    simpa [SameName] using hnone e he

/-- An insertion adds an entry if there is none. -/
theorem find_insert : ∀ {m : MapType}, m.Ordered → (m.insert key val).find key' =
    if SameName key' key then (m.find key').or (some val) else m.find key'
  | [], _ => find_cons (key, val) [] key'
  | (k, v) :: rest, hm => by
      rw [insert]
      split
      · rename_i hlt
        rw [find_cons]
        by_cases hsame : SameName key' key
        · rw [if_pos hsame, if_pos hsame, find_none_of_lt hlt hm hsame, Option.none_or]
        · rw [if_neg hsame, if_neg hsame]
      · rename_i heq
        have hkey : SameName key k := heq
        by_cases hsame : SameName key' key
        · rw [if_pos hsame, find_cons, if_pos (hsame.trans hkey), Option.some_or]
        · rw [if_neg hsame]
      · rename_i hgt
        rw [find_cons, find_insert (List.pairwise_cons.mp hm).2, find_cons]
        by_cases hk : SameName key' k
        · have hsame : ¬SameName key' key := fun hsame =>
            not_same_of_gt hgt (hsame.symm.trans hk)
          rw [if_pos hk, if_pos hk, if_neg hsame]
        · rw [if_neg hk, if_neg hk]

theorem find_append {m' : MapType} : find (m ++ m') key = (m.find key).or (find m' key) := by
  rw [find, List.find?_append, Option.map_or]
  rfl

theorem find_erase : (m.erase key).find key' =
    if SameName key' key then none else m.find key' := by
  rw [find, find, erase, List.find?_filter]
  by_cases hsame : SameName key' key
  · rw [if_pos hsame, List.find?_eq_none.mpr]
    · rfl
    · rintro e - hboth
      simp only [decide_eq_true_eq] at hboth
      exact hboth.1 (hsame.symm.trans hboth.2)
  · rw [if_neg hsame]
    congr 2
    funext e
    by_cases hother : strcasecmp (cStr key') (cStr e.1) = .eq
    · have hkey : strcasecmp (cStr key) (cStr e.1) ≠ .eq := fun hkey =>
        hsame (SameName.trans hother (SameName.symm hkey))
      simp [hother, hkey]
    · simp [hother]

/-! ## The order is kept -/

theorem mem_insert {e : Bytes × Bytes} : ∀ {m : MapType}, e ∈ m.insert key val →
    e = (key, val) ∨ e ∈ m
  | [], he => .inl (List.mem_singleton.mp he)
  | (k, v) :: rest, he => by
      rw [insert] at he
      split at he
      · exact List.mem_cons.mp he
      · exact .inr he
      · obtain rfl | he := List.mem_cons.mp he
        · exact .inr (List.mem_cons_self ..)
        · exact (mem_insert he).imp_right (List.mem_cons_of_mem _)

theorem ordered_insert : ∀ {m : MapType}, m.Ordered → (m.insert key val).Ordered
  | [], _ => List.pairwise_singleton ..
  | (k, v) :: rest, hm => by
      obtain ⟨hhead, htail⟩ := List.pairwise_cons.mp hm
      rw [insert]
      split
      · rename_i hlt
        refine List.pairwise_cons.mpr ⟨fun e he => ?_, hm⟩
        obtain rfl | he := List.mem_cons.mp he
        · exact hlt
        · exact strcasecmp_lt_trans hlt (hhead e he)
      · exact hm
      · rename_i hgt
        refine List.pairwise_cons.mpr ⟨fun e he => ?_, ordered_insert htail⟩
        obtain rfl | he := mem_insert he
        · exact strcasecmp_gt hgt
        · exact hhead e he

theorem mem_set {e : Bytes × Bytes} : ∀ {m : MapType}, e ∈ m.set key val →
    e.1 = key ∨ ∃ e' ∈ m, e'.1 = e.1
  | [], he => .inl (congrArg Prod.fst (List.mem_singleton.mp he))
  | (k, v) :: rest, he => by
      rw [set] at he
      split at he
      · obtain rfl | he := List.mem_cons.mp he
        · exact .inl rfl
        · exact .inr ⟨e, he, rfl⟩
      · obtain rfl | he := List.mem_cons.mp he
        · exact .inr ⟨(k, v), List.mem_cons_self .., rfl⟩
        · exact .inr ⟨e, List.mem_cons_of_mem _ he, rfl⟩
      · obtain rfl | he := List.mem_cons.mp he
        · exact .inr ⟨(k, v), List.mem_cons_self .., rfl⟩
        · obtain hkey | ⟨e', he', hkey⟩ := mem_set he
          · exact .inl hkey
          · exact .inr ⟨e', List.mem_cons_of_mem _ he', hkey⟩

theorem ordered_set : ∀ {m : MapType}, m.Ordered → (m.set key val).Ordered
  | [], _ => List.pairwise_singleton ..
  | (k, v) :: rest, hm => by
      obtain ⟨hhead, htail⟩ := List.pairwise_cons.mp hm
      rw [set]
      split
      · rename_i hlt
        refine List.pairwise_cons.mpr ⟨fun e he => ?_, hm⟩
        obtain rfl | he := List.mem_cons.mp he
        · exact hlt
        · exact strcasecmp_lt_trans hlt (hhead e he)
      · exact List.pairwise_cons.mpr ⟨hhead, htail⟩
      · rename_i hgt
        refine List.pairwise_cons.mpr ⟨fun e he => ?_, ordered_set htail⟩
        obtain hkey | ⟨e', he', hkey⟩ := mem_set he
        · rw [hkey]
          exact strcasecmp_gt hgt
        · rw [← hkey]
          exact hhead e' he'

theorem ordered_erase (hm : m.Ordered) : (m.erase key).Ordered := hm.sublist List.filter_sublist

theorem ordered_insertAll : ∀ {pairs : List (Bytes × Bytes)} {m : MapType}, m.Ordered →
    (m.insertAll pairs).Ordered
  | [], _, hm => hm
  | e :: pairs, m, hm => by
      have hord : (m.insert e.1 e.2).Ordered := ordered_insert hm
      exact @ordered_insertAll pairs _ hord

/-- The first of the pairs counts, unless there is an entry already. -/
theorem find_insertAll : ∀ {pairs : List (Bytes × Bytes)} {m : MapType}, m.Ordered →
    (m.insertAll pairs).find key = (m.find key).or (find pairs key)
  | [], m, _ => (Option.or_none ..).symm
  | e :: pairs, m, hm => by
      have hord : (m.insert e.1 e.2).Ordered := ordered_insert hm
      have hrest : ((m.insert e.1 e.2).insertAll pairs).find key = _ := find_insertAll hord
      rw [insertAll, List.foldl_cons, ← insertAll, hrest, find_insert hm, find_cons]
      by_cases hsame : SameName key e.1
      · rw [if_pos hsame, if_pos hsame, Option.or_assoc, Option.some_or]
      · rw [if_neg hsame, if_neg hsame]

end MapType

end Sylar
