import Sylar.HttpParams
import Sylar.Lib.LazyMap

/-!
# Parameters are parsed on demand

The reads of a request's parameters fill the map before they look into
it, and so do those of its cookies; `setParam`, `delParam`, `setCookie`
and `delCookie` do not. The maps are lazy maps with two spaces
(`Refines`), so it is noticed exactly when a read sees a parsed name
that was deleted before the first read (`lazy_iff`).
-/

namespace Sylar

/-- The two maps of a request. -/
inductive ParamSpace where
  | params
  | cookies
deriving Repr, DecidableEq

/-- The operations; `val` says whether `hasParam` is given a pointer, and
`cast` is the conversion of `getParamAs`. -/
inductive ParamOp (R : Type) where
  | setParam (key val : Bytes)
  | delParam (key : Bytes)
  | getParam (key dflt : Bytes)
  | hasParam (key : Bytes) (val : Bool)
  | getParamAs (cast : LongDouble → R) (key : Bytes) (dflt : R)
  | setCookie (key val : Bytes)
  | delCookie (key : Bytes)
  | getCookie (key dflt : Bytes)
  | hasCookie (key : Bytes) (val : Bool)

inductive ParamResult (R : Type) where
  | value (v : Bytes)
  | found (b : Bool) (val : Option Bytes)
  | as_ (x : R)
deriving Repr, DecidableEq

/-- What names that are equal in a map have in common. -/
def foldName (key : Bytes) : Bytes := (cStr key).map tolower

namespace ParamRequest

variable {R : Type}

/-- An operation, its result if it has one. -/
def perform (r : ParamRequest) : ParamOp R → Option (ParamResult R) × ParamRequest
  | .setParam key val => (none, r.setParam key val)
  | .delParam key => (none, r.delParam key)
  | .getParam key dflt => let (v, r) := r.getParam key dflt; (some (.value v), r)
  | .hasParam key val => let (b, r) := r.hasParam key val; (some (.found b.1 b.2), r)
  | .getParamAs cast key dflt => let (x, r) := r.getParamAs cast key dflt; (some (.as_ x), r)
  | .setCookie key val => (none, r.setCookie key val)
  | .delCookie key => (none, r.delCookie key)
  | .getCookie key dflt => let (v, r) := r.getCookie key dflt; (some (.value v), r)
  | .hasCookie key val => let (b, r) := r.hasCookie key val; (some (.found b.1 b.2), r)

def results (r : ParamRequest) : List (ParamOp R) → List (ParamResult R)
  | [] => []
  | op :: ops => (r.perform op).1.toList ++ results (r.perform op).2 ops

end ParamRequest

/-! ## As lazy maps -/

namespace ParamOp

variable {R : Type}

def seeValue (dflt : Bytes) (o : Option Bytes) : ParamResult R := .value (o.getD dflt)

def seeFound (val : Bool) (o : Option Bytes) : ParamResult R :=
  .found o.isSome (if val then o else none)

def seeAs (cast : LongDouble → R) (dflt : R) (o : Option Bytes) : ParamResult R :=
  .as_ ((o.bind stold).elim dflt cast)

def toLazy : ParamOp R → LazyMap.Op ParamSpace Bytes Bytes (ParamResult R)
  | .setParam key val => .set .params (foldName key) val
  | .delParam key => .del .params (foldName key)
  | .getParam key dflt => .read .params (foldName key) (seeValue dflt)
  | .hasParam key val => .read .params (foldName key) (seeFound val)
  | .getParamAs cast key dflt => .read .params (foldName key) (seeAs cast dflt)
  | .setCookie key val => .set .cookies (foldName key) val
  | .delCookie key => .del .cookies (foldName key)
  | .getCookie key dflt => .read .cookies (foldName key) (seeValue dflt)
  | .hasCookie key val => .read .cookies (foldName key) (seeFound val)

end ParamOp

namespace HttpRequest

/-- What the parts of a request say about a name. -/
def written (q : HttpRequest) : ParamSpace → Bytes → Option Bytes
  | .params, n => ((q.queryPairs ++ q.bodyPairs).find? fun e => foldName e.1 = n).map Prod.snd
  | .cookies, n => (q.cookiePairs.find? fun e => foldName e.1 = n).map Prod.snd

end HttpRequest

theorem find_eq_fold (pairs : List (Bytes × Bytes)) (key : Bytes) :
    MapType.find pairs key = (pairs.find? fun e => foldName e.1 = foldName key).map Prod.snd := by
  rw [MapType.find]
  congr 2
  funext e
  rw [decide_eq_decide]
  exact sameName_iff.trans eq_comm

theorem foldName_iff {a b : Bytes} : SameName a b ↔ foldName a = foldName b := sameName_iff

namespace ParamRequest

variable {R : Type} {q : HttpRequest} {r : ParamRequest} {m : LazyMap ParamSpace Bytes Bytes}
  {key val : Bytes}

/-- A request's maps are the lazy map. -/
structure Refines (q : HttpRequest) (r : ParamRequest) (m : LazyMap ParamSpace Bytes Bytes) :
    Prop where
  request : r.toHttpRequest = q
  paramsOrdered : r.params.Ordered
  cookiesOrdered : r.cookies.Ordered
  query : m.started .params = decide (r.parserParamFlag &&& 0x1 ≠ 0)
  body : m.started .params = decide (r.parserParamFlag &&& 0x2 ≠ 0)
  cookie : m.started .cookies = decide (r.parserParamFlag &&& 0x4 ≠ 0)
  params : ∀ key, r.params.find key = m.map .params (foldName key)
  cookies : ∀ key, r.cookies.find key = m.map .cookies (foldName key)

theorem refines_fresh (q : HttpRequest) : Refines q (ofRequest q) LazyMap.fresh :=
  ⟨rfl, List.Pairwise.nil, List.Pairwise.nil, by simp [LazyMap.fresh, ofRequest],
    by simp [LazyMap.fresh, ofRequest], by simp [LazyMap.fresh, ofRequest], fun _ => rfl,
    fun _ => rfl⟩

/-- The bits of the flag do not mix. -/
theorem flag_bits : ∀ f : UInt8,
    ((f ||| 0x1) &&& 0x1 ≠ 0 ∧ (f ||| 0x1) &&& 0x2 = f &&& 0x2 ∧ (f ||| 0x1) &&& 0x4 = f &&& 0x4) ∧
    ((f ||| 0x2) &&& 0x1 = f &&& 0x1 ∧ (f ||| 0x2) &&& 0x2 ≠ 0 ∧ (f ||| 0x2) &&& 0x4 = f &&& 0x4) ∧
    ((f ||| 0x4) &&& 0x1 = f &&& 0x1 ∧ (f ||| 0x4) &&& 0x2 = f &&& 0x2 ∧
      (f ||| 0x4) &&& 0x4 ≠ 0) := by
  decide +kernel

theorem written_params (q : HttpRequest) (key : Bytes) : q.written .params (foldName key) =
    (MapType.find q.queryPairs key).or (MapType.find q.bodyPairs key) := by
  rw [← MapType.find_append, find_eq_fold]
  rfl

/-- What a read of the parameters does first. -/
theorem Refines.initParams (h : Refines q r m) :
    Refines q r.initQueryParam.initBodyParam (m.start q.written .params) := by
  obtain ⟨⟨hset₁, hkeep₂, hkeep₄⟩, ⟨hkeep₁, hset₂, hkeep₄'⟩, -⟩ := flag_bits r.parserParamFlag
  obtain ⟨⟨hset₁', hkeep₂', hkeep₄''⟩, ⟨hkeep₁', hset₂', hkeep⟩, -⟩ :=
    flag_bits (r.parserParamFlag ||| 0x1)
  have hquery := h.query
  have hbody := h.body
  cases hstarted : m.started .params with
  | true =>
      rw [hstarted, eq_comm, decide_eq_true_eq] at hquery hbody
      have hsame : r.initQueryParam.initBodyParam = r := by
        rw [initQueryParam, if_pos hquery, initBodyParam, if_pos hbody]
      rw [hsame]
      refine ⟨h.request, h.paramsOrdered, h.cookiesOrdered, ?_, ?_, ?_, fun key => ?_, fun key => ?_⟩
      · simp [LazyMap.start, hquery]
      · simp [LazyMap.start, hbody]
      · simp [LazyMap.start, h.cookie]
      · simp [LazyMap.start, hstarted, h.params]
      · simp [LazyMap.start, h.cookies]
  | false =>
      rw [hstarted, eq_comm, decide_eq_false_iff_not] at hquery hbody
      have hsame : r.initQueryParam.initBodyParam = { r with
          params := (r.params.insertAll r.queryPairs).insertAll r.bodyPairs
          parserParamFlag := r.parserParamFlag ||| 0x1 ||| 0x2 } := by
        rw [initQueryParam, if_neg hquery, initBodyParam, if_neg (by rwa [hkeep₂])]
      have hordered : (r.params.insertAll r.queryPairs).Ordered :=
        MapType.ordered_insertAll h.paramsOrdered
      rw [hsame]
      refine ⟨h.request, MapType.ordered_insertAll hordered, h.cookiesOrdered, ?_, ?_, ?_,
        fun key => ?_, fun key => ?_⟩
      · simp [LazyMap.start, hkeep₁', hset₁]
      · simp [LazyMap.start, hset₂']
      · simp [LazyMap.start, hkeep, hkeep₄, h.cookie]
      · have hmap : (m.start q.written .params).map .params (foldName key) =
            (m.map .params (foldName key)).or (q.written .params (foldName key)) := by
          simp [LazyMap.start, hstarted]
        rw [MapType.find_insertAll hordered, MapType.find_insertAll h.paramsOrdered, h.params key,
          hmap, written_params, h.request, Option.or_assoc]
      · simp [LazyMap.start, h.cookies]

/-- What a read of the cookies does first. -/
theorem Refines.initCookies (h : Refines q r m) :
    Refines q r.initCookies (m.start q.written .cookies) := by
  obtain ⟨-, -, hkeep₁, hkeep₂, hset₄⟩ := flag_bits r.parserParamFlag
  have hcookie := h.cookie
  cases hstarted : m.started .cookies with
  | true =>
      rw [hstarted, eq_comm, decide_eq_true_eq] at hcookie
      have hsame : r.initCookies = r := by
        rw [ParamRequest.initCookies, if_pos hcookie]
      rw [hsame]
      refine ⟨h.request, h.paramsOrdered, h.cookiesOrdered, ?_, ?_, ?_, fun key => ?_, fun key => ?_⟩
      · simp [LazyMap.start, h.query]
      · simp [LazyMap.start, h.body]
      · simp [LazyMap.start, hcookie]
      · simp [LazyMap.start, h.params]
      · simp [LazyMap.start, hstarted, h.cookies]
  | false =>
      rw [hstarted, eq_comm, decide_eq_false_iff_not] at hcookie
      rw [ParamRequest.initCookies, if_neg hcookie]
      refine ⟨h.request, h.paramsOrdered, MapType.ordered_insertAll h.cookiesOrdered, ?_, ?_, ?_,
        fun key => ?_, fun key => ?_⟩
      · simp [LazyMap.start, hkeep₁, h.query]
      · simp [LazyMap.start, hkeep₂, h.body]
      · simp [LazyMap.start, hset₄]
      · simp [LazyMap.start, h.params]
      · have hmap : (m.start q.written .cookies).map .cookies (foldName key) =
            (m.map .cookies (foldName key)).or (q.written .cookies (foldName key)) := by
          simp [LazyMap.start, hstarted]
        rw [MapType.find_insertAll h.cookiesOrdered, h.cookies key, hmap, find_eq_fold, h.request]
        rfl

theorem Refines.put (h : Refines q r m) {params cookies : MapType} {s : ParamSpace} {v : Option Bytes}
    (hparams : params.Ordered) (hcookies : cookies.Ordered)
    (hfind : ∀ key', params.find key' = (m.put s (foldName key) v).map .params (foldName key') ∧
      cookies.find key' = (m.put s (foldName key) v).map .cookies (foldName key')) :
    Refines q { r with params, cookies } (m.put s (foldName key) v) :=
  ⟨h.request, hparams, hcookies, h.query, h.body, h.cookie, fun key' => (hfind key').1,
    fun key' => (hfind key').2⟩

theorem Refines.setParam (h : Refines q r m) :
    Refines q (r.setParam key val) (m.put .params (foldName key) (some val)) := by
  refine h.put (MapType.ordered_set h.paramsOrdered) h.cookiesOrdered fun key' => ⟨?_, ?_⟩
  · rw [MapType.find_set, LazyMap.put_map, h.params]
    simp [foldName_iff]
  · rw [LazyMap.put_map, h.cookies]
    simp

theorem Refines.delParam (h : Refines q r m) :
    Refines q (r.delParam key) (m.put .params (foldName key) none) := by
  refine h.put (MapType.ordered_erase h.paramsOrdered) h.cookiesOrdered fun key' => ⟨?_, ?_⟩
  · rw [MapType.find_erase, LazyMap.put_map, h.params]
    simp [foldName_iff]
  · rw [LazyMap.put_map, h.cookies]
    simp

theorem Refines.setCookie (h : Refines q r m) :
    Refines q (r.setCookie key val) (m.put .cookies (foldName key) (some val)) := by
  refine h.put h.paramsOrdered (MapType.ordered_set h.cookiesOrdered) fun key' => ⟨?_, ?_⟩
  · rw [LazyMap.put_map, h.params]
    simp
  · rw [MapType.find_set, LazyMap.put_map, h.cookies]
    simp [foldName_iff]

theorem Refines.delCookie (h : Refines q r m) :
    Refines q (r.delCookie key) (m.put .cookies (foldName key) none) := by
  refine h.put h.paramsOrdered (MapType.ordered_erase h.cookiesOrdered) fun key' => ⟨?_, ?_⟩
  · rw [LazyMap.put_map, h.params]
    simp
  · rw [MapType.find_erase, LazyMap.put_map, h.cookies]
    simp [foldName_iff]

theorem getAsOf_eq (cast : LongDouble → R) (m : MapType) (key : Bytes) (dflt : R) :
    m.getAsOf cast key dflt = ((m.find key).bind stold).elim dflt cast := by
  rw [MapType.getAsOf]
  cases m.find key with
  | none => rfl
  | some v =>
      cases hv : stold v with
      | none => simp [hv]
      | some x => simp [hv]

/-- A request answers as the lazy map does. -/
theorem Refines.results : ∀ {ops : List (ParamOp R)} {r : ParamRequest}
    {m : LazyMap ParamSpace Bytes Bytes}, Refines q r m →
    r.results ops = LazyMap.results q.written m (ops.map ParamOp.toLazy)
  | [], _, _, _ => rfl
  | op :: ops, r, m, h => by
      cases op with
      | setParam key val => exact h.setParam.results
      | delParam key => exact h.delParam.results
      | setCookie key val => exact h.setCookie.results
      | delCookie key => exact h.delCookie.results
      | getParam key dflt =>
          have hinit := h.initParams
          refine List.cons_eq_cons.mpr ⟨?_, hinit.results⟩
          rw [← hinit.params key]
          rfl
      | hasParam key val =>
          have hinit := h.initParams
          refine List.cons_eq_cons.mpr ⟨?_, hinit.results⟩
          rw [← hinit.params key]
          rfl
      | getParamAs cast key dflt =>
          have hinit := h.initParams
          refine List.cons_eq_cons.mpr ⟨?_, hinit.results⟩
          rw [← hinit.params key]
          exact congrArg ParamResult.as_ (getAsOf_eq ..)
      | getCookie key dflt =>
          have hinit := h.initCookies
          refine List.cons_eq_cons.mpr ⟨?_, hinit.results⟩
          rw [← hinit.cookies key]
          rfl
      | hasCookie key val =>
          have hinit := h.initCookies
          refine List.cons_eq_cons.mpr ⟨?_, hinit.results⟩
          rw [← hinit.cookies key]
          rfl

/-- `initParam` fills both maps. -/
theorem refines_initParam (q : HttpRequest) :
    Refines q (ofRequest q).initParam (LazyMap.eager q.written) := by
  have hboth : ((LazyMap.fresh.start q.written .params).start q.written .cookies :
      LazyMap ParamSpace Bytes Bytes) = LazyMap.eager q.written := by
    rw [LazyMap.eager, LazyMap.start, LazyMap.mk.injEq]
    constructor
    · funext s
      cases s <;> rfl
    · funext s n
      cases s <;> rfl
  rw [← hboth]
  exact (refines_fresh q).initParams.initCookies

/-- **When parsing on demand goes unnoticed**: no read sees a parsed name
whose last update is a deletion made before the first read of its map. -/
theorem lazy_iff (q : HttpRequest) (ops : List (ParamOp R)) :
    (ofRequest q).results ops = (ofRequest q).initParam.results ops ↔
      LazyMap.Unseen q.written [] (ops.map ParamOp.toLazy) := by
  rw [(refines_fresh q).results, (refines_initParam q).results]
  exact LazyMap.results_iff _

/-- The query `a=1`. -/
def deletedQuery : HttpRequest := { HttpRequest.new with query := [97, 61, 49] }

/-- What `delParam` deletes comes back with the first read. -/
theorem deleted_comes_back :
    (ofRequest deletedQuery).results [.delParam [97], .hasParam [97] true] =
        [(.found true (some [49]) : ParamResult Unit)] ∧
      (ofRequest deletedQuery).initParam.results [.delParam [97], .hasParam [97] true] =
        [(.found false none : ParamResult Unit)] := by
  decide

end ParamRequest

end Sylar
