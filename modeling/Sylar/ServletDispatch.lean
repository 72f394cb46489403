import Mathlib.Data.List.AList
import Sylar.HttpMessage
import Sylar.Lib.UpdateLog

/-!
# The servlet a path is dispatched to

`servlet.cc`. A `ServletDispatch` has servlets for exact paths in an
unordered map and servlets for patterns in a vector; `getMatchedServlet`
looks the path up in the map, then tries the patterns in order, and falls
back on the default. Every call holds the lock all through, so any use by
any number of threads is a sequence of calls.

Adding a pattern again moves it to the end, and deleting it removes the
first entry it finds, which is the only one (`orderly`). So the two
containers are what the log of the calls says (`run_datas`, `run_globs`),
and the answer can be read off it (`getMatchedServlet_eq`). `fnmatch` can
be anything.
-/

namespace Sylar

/-- What a `Servlet::ptr` can point to. -/
inductive Servlet (κ σ : Type) where
  | functionServlet (cb : κ)
  | notFoundServlet (name content : Bytes)
  /-- an object of another class -/
  | other (slt : σ)
deriving Repr, DecidableEq

namespace Servlet

/-- `NotFoundServlet(name)`. -/
def newNotFound {κ σ : Type} (name : Bytes) : Servlet κ σ :=
  .notFoundServlet name (bytes "<html><head><title>404 Not Found" ++
    bytes "</title></head><body><center><h1>404 Not Found</h1></center>" ++
    bytes "<hr><center>" ++ name ++ bytes "</center></body></html>")

/-- `Servlet::ptr`. -/
abbrev Ptr (κ σ : Type) := Option (Servlet κ σ)

end Servlet

structure ServletDispatch (κ σ : Type) where
  datas : AList fun _ : Bytes => Servlet.Ptr κ σ
  globs : List (Bytes × Servlet.Ptr κ σ)
  default : Servlet.Ptr κ σ

namespace ServletDispatch

variable {κ σ : Type}

def new : ServletDispatch κ σ := ⟨∅, [], some (.newNotFound (bytes "sylar/1.0"))⟩

def setDefault (d : ServletDispatch κ σ) (v : Servlet.Ptr κ σ) : ServletDispatch κ σ :=
  { d with default := v }

def addServlet (d : ServletDispatch κ σ) (uri : Bytes) (slt : Servlet.Ptr κ σ) :
    ServletDispatch κ σ :=
  { d with datas := d.datas.insert uri slt }

/-- `addServlet` with a callback. -/
def addServletCallback (d : ServletDispatch κ σ) (uri : Bytes) (cb : κ) : ServletDispatch κ σ :=
  { d with datas := d.datas.insert uri (some (.functionServlet cb)) }

/-- The loop of `addGlobServlet` and `delGlobServlet`: the first entry of
the pattern is erased. -/
def eraseGlob (uri : Bytes) : List (Bytes × Servlet.Ptr κ σ) → List (Bytes × Servlet.Ptr κ σ)
  | [] => []
  | it :: rest => if it.1 = uri then rest else it :: eraseGlob uri rest

def addGlobServlet (d : ServletDispatch κ σ) (uri : Bytes) (slt : Servlet.Ptr κ σ) :
    ServletDispatch κ σ :=
  { d with globs := eraseGlob uri d.globs ++ [(uri, slt)] }

/-- `addGlobServlet` with a callback. -/
def addGlobServletCallback (d : ServletDispatch κ σ) (uri : Bytes) (cb : κ) :
    ServletDispatch κ σ :=
  d.addGlobServlet uri (some (.functionServlet cb))

def delServlet (d : ServletDispatch κ σ) (uri : Bytes) : ServletDispatch κ σ :=
  { d with datas := d.datas.erase uri }

def delGlobServlet (d : ServletDispatch κ σ) (uri : Bytes) : ServletDispatch κ σ :=
  { d with globs := eraseGlob uri d.globs }

def getServlet (d : ServletDispatch κ σ) (uri : Bytes) : Servlet.Ptr κ σ :=
  match d.datas.lookup uri with
  | none => none
  | some slt => slt

def getGlobServlet (d : ServletDispatch κ σ) (uri : Bytes) : Servlet.Ptr κ σ :=
  match d.globs.find? fun it => it.1 = uri with
  | none => none
  | some it => it.2

/-- `getMatchedServlet(uri)`; `fnmatch` is 0 for a match and sees C
strings. -/
def getMatchedServlet (fnmatch : Bytes → Bytes → Int) (d : ServletDispatch κ σ) (uri : Bytes) :
    Servlet.Ptr κ σ :=
  match d.datas.lookup uri with
  | some slt => slt
  | none =>
      match d.globs.find? fun it => fnmatch (cStr it.1) (cStr uri) = 0 with
      | some it => it.2
      | none => d.default

/-! ## Sequences of calls -/

inductive Call (κ σ : Type) where
  | setDefault (v : Servlet.Ptr κ σ)
  | addServlet (uri : Bytes) (slt : Servlet.Ptr κ σ)
  | addServletCallback (uri : Bytes) (cb : κ)
  | addGlobServlet (uri : Bytes) (slt : Servlet.Ptr κ σ)
  | addGlobServletCallback (uri : Bytes) (cb : κ)
  | delServlet (uri : Bytes)
  | delGlobServlet (uri : Bytes)
deriving Repr, DecidableEq

def step (d : ServletDispatch κ σ) : Call κ σ → ServletDispatch κ σ
  | .setDefault v => d.setDefault v
  | .addServlet uri slt => d.addServlet uri slt
  | .addServletCallback uri cb => d.addServletCallback uri cb
  | .addGlobServlet uri slt => d.addGlobServlet uri slt
  | .addGlobServletCallback uri cb => d.addGlobServletCallback uri cb
  | .delServlet uri => d.delServlet uri
  | .delGlobServlet uri => d.delGlobServlet uri

def run (calls : List (Call κ σ)) : ServletDispatch κ σ := calls.foldl step new

namespace Call

/-- What a call does to the servlet of an exact path. -/
def exact : Call κ σ → Option (Update Bytes (Servlet.Ptr κ σ))
  | .addServlet uri slt => some (.set uri slt)
  | .addServletCallback uri cb => some (.set uri (some (.functionServlet cb)))
  | .delServlet uri => some (.del uri)
  | _ => none

/-- What it does to the servlet of a pattern. -/
def glob : Call κ σ → Option (Update Bytes (Servlet.Ptr κ σ))
  | .addGlobServlet uri slt => some (.set uri slt)
  | .addGlobServletCallback uri cb => some (.set uri (some (.functionServlet cb)))
  | .delGlobServlet uri => some (.del uri)
  | _ => none

end Call

/-! ## The containers and the log -/

theorem run_concat (calls : List (Call κ σ)) (c : Call κ σ) :
    run (calls ++ [c]) = (run calls).step c := by
  rw [run, List.foldl_append]
  rfl

theorem eraseGlob_eq_filter {uri : Bytes} {globs : List (Bytes × Servlet.Ptr κ σ)}
    (h : (globs.map Prod.fst).Nodup) : eraseGlob uri globs = globs.filter (·.1 ≠ uri) := by
  induction globs with
  | nil => rfl
  | cons it rest ih =>
    obtain ⟨hit, hrest⟩ := List.nodup_cons.mp h
    rw [eraseGlob]
    split
    · rename_i hkey
      rw [List.filter_cons_of_neg (by simpa using hkey), List.filter_eq_self.mpr]
      intro e he
      have hne : e.1 ≠ uri := fun heq => hit (hkey ▸ heq ▸ List.mem_map_of_mem he)
      simpa using hne
    · rename_i hkey
      rw [List.filter_cons_of_pos (by simpa using hkey), ih hrest]

/-- The patterns are those added and not deleted since, in the order in
which they were last added. -/
theorem run_globs (calls : List (Call κ σ)) :
    (run calls).globs = Update.live (calls.filterMap Call.glob) := by
  induction calls using List.reverseRecOn with
  | nil => rfl
  | append_singleton calls c ih =>
    have herase (uri : Bytes) : eraseGlob uri (run calls).globs =
        (Update.live (calls.filterMap Call.glob)).filter (·.1 ≠ uri) := by
      rw [ih, eraseGlob_eq_filter (Update.nodup_live _)]
    have hlive {u : Update Bytes (Servlet.Ptr κ σ)} (hu : c.glob = some u) :
        Update.live ((calls ++ [c]).filterMap Call.glob) =
          (Update.live (calls.filterMap Call.glob)).filter (·.1 ≠ u.key) ++ Update.live [u] := by
      rw [List.filterMap_append, ← Update.live_concat, List.filterMap_cons_some hu]
      rfl
    have hsame (hc : c.glob = none) :
        (calls ++ [c]).filterMap Call.glob = calls.filterMap Call.glob := by
      rw [List.filterMap_append, List.filterMap_cons_none hc]
      exact List.append_nil _
    rw [run_concat]
    cases c with
    | setDefault v => rw [hsame rfl, ← ih]; rfl
    | addServlet uri slt => rw [hsame rfl, ← ih]; rfl
    | addServletCallback uri cb => rw [hsame rfl, ← ih]; rfl
    | delServlet uri => rw [hsame rfl, ← ih]; rfl
    | addGlobServlet uri slt => rw [hlive rfl]; exact congrArg (· ++ _) (herase uri)
    | addGlobServletCallback uri cb => rw [hlive rfl]; exact congrArg (· ++ _) (herase uri)
    | delGlobServlet uri =>
      rw [hlive rfl]
      exact (herase uri).trans (List.append_nil _).symm

/-- The map has a path exactly when its servlet was added and not deleted
since. -/
theorem run_datas (calls : List (Call κ σ)) (uri : Bytes) (slt : Servlet.Ptr κ σ) :
    (run calls).datas.lookup uri = some slt ↔
      Update.Latest (calls.filterMap Call.exact) uri slt := by
  induction calls using List.reverseRecOn with
  | nil =>
    refine iff_of_false (by simp [run, new]) ?_
    rintro ⟨before, since, heq, -⟩
    simp at heq
  | append_singleton calls c ih =>
    have hsame (hc : c.exact = none) :
        (calls ++ [c]).filterMap Call.exact = calls.filterMap Call.exact := by
      rw [List.filterMap_append, List.filterMap_cons_none hc]
      exact List.append_nil _
    have hlatest {u : Update Bytes (Servlet.Ptr κ σ)} (hu : c.exact = some u) :
        Update.Latest ((calls ++ [c]).filterMap Call.exact) uri slt ↔
          u = .set uri slt ∨ u.key ≠ uri ∧ (run calls).datas.lookup uri = some slt := by
      rw [List.filterMap_append, List.filterMap_cons_some hu, ih]
      exact Update.latest_concat
    have hinsert (uri' : Bytes) (slt' : Servlet.Ptr κ σ) :
        ((run calls).datas.insert uri' slt').lookup uri = some slt ↔
          Update.set uri' slt' = .set uri slt ∨
            uri' ≠ uri ∧ (run calls).datas.lookup uri = some slt := by
      by_cases hkey : uri = uri'
      · subst hkey
        simp
      · rw [AList.lookup_insert_ne hkey]
        simp [Ne.symm hkey]
    rw [run_concat]
    cases c with
    | setDefault v => rw [hsame rfl, ← ih]; rfl
    | addGlobServlet uri' slt' => rw [hsame rfl, ← ih]; rfl
    | addGlobServletCallback uri' cb => rw [hsame rfl, ← ih]; rfl
    | delGlobServlet uri' => rw [hsame rfl, ← ih]; rfl
    | addServlet uri' slt' => rw [hlatest rfl]; exact hinsert uri' slt'
    | addServletCallback uri' cb => rw [hlatest rfl]; exact hinsert uri' _
    | delServlet uri' =>
      rw [hlatest rfl]
      show ((run calls).datas.erase uri').lookup uri = some slt ↔ _
      by_cases hkey : uri = uri'
      · subst hkey
        simp [Update.key]
      · rw [AList.lookup_erase_ne hkey]
        simp [Update.key, Ne.symm hkey]

/-! ## Dispatch -/

/-- A pattern has one entry at most, the deletions take out their
argument and nothing else, and a pattern that is added goes to the end. -/
structure Orderly (d : ServletDispatch κ σ) : Prop where
  unique : (d.globs.map Prod.fst).Nodup
  delServlet_lookup : ∀ uri other, (d.delServlet uri).datas.lookup other =
    if other = uri then none else d.datas.lookup other
  delServlet_globs : ∀ uri, (d.delServlet uri).globs = d.globs
  delServlet_default : ∀ uri, (d.delServlet uri).default = d.default
  delGlobServlet_globs : ∀ uri, (d.delGlobServlet uri).globs = d.globs.filter (·.1 ≠ uri)
  delGlobServlet_datas : ∀ uri, (d.delGlobServlet uri).datas = d.datas
  delGlobServlet_default : ∀ uri, (d.delGlobServlet uri).default = d.default
  addGlobServlet_globs : ∀ uri slt,
    (d.addGlobServlet uri slt).globs = d.globs.filter (·.1 ≠ uri) ++ [(uri, slt)]
  addGlobServletCallback_globs : ∀ uri cb, (d.addGlobServletCallback uri cb).globs =
    d.globs.filter (·.1 ≠ uri) ++ [(uri, some (.functionServlet cb))]

/-- The answer for `uri` after these calls: the servlet last added for it
and not deleted since, else that of the first pattern that accepts it,
else the default. -/
structure Matches (fnmatch : Bytes → Bytes → Int) (calls : List (Call κ σ)) (uri : Bytes)
    (answer : Servlet.Ptr κ σ) : Prop where
  exact : ∀ slt, Update.Latest (calls.filterMap Call.exact) uri slt → answer = slt
  glob : (∀ slt, ¬Update.Latest (calls.filterMap Call.exact) uri slt) →
    ∀ before it since, Update.live (calls.filterMap Call.glob) = before ++ it :: since →
      (∀ e ∈ before, fnmatch (cStr e.1) (cStr uri) ≠ 0) →
      fnmatch (cStr it.1) (cStr uri) = 0 → answer = it.2
  default : (∀ slt, ¬Update.Latest (calls.filterMap Call.exact) uri slt) →
    (∀ e ∈ Update.live (calls.filterMap Call.glob), fnmatch (cStr e.1) (cStr uri) ≠ 0) →
      answer = (run calls).default

theorem run_orderly (calls : List (Call κ σ)) : Orderly (run calls) := by
  have hunique : ((run calls).globs.map Prod.fst).Nodup := by
    rw [run_globs]
    exact Update.nodup_live _
  have herase (uri : Bytes) : eraseGlob uri (run calls).globs =
      (run calls).globs.filter (·.1 ≠ uri) := eraseGlob_eq_filter hunique
  refine ⟨hunique, fun uri other => ?_, fun _ => rfl, fun _ => rfl, herase, fun _ => rfl,
    fun _ => rfl, fun uri slt => congrArg (· ++ _) (herase uri),
    fun uri cb => congrArg (· ++ _) (herase uri)⟩
  split
  · rename_i heq
    rw [heq]
    exact AList.lookup_erase ..
  · rename_i hne
    exact AList.lookup_erase_ne hne

theorem getMatchedServlet_matches (fnmatch : Bytes → Bytes → Int) (calls : List (Call κ σ))
    (uri : Bytes) : Matches fnmatch calls uri ((run calls).getMatchedServlet fnmatch uri) := by
  have hlookup (hnone : ∀ slt, ¬Update.Latest (calls.filterMap Call.exact) uri slt) :
      (run calls).datas.lookup uri = none := by
    rw [Option.eq_none_iff_forall_ne_some]
    exact fun slt hslt => hnone slt ((run_datas calls uri slt).mp hslt)
  constructor
  · intro slt hslt
    rw [getMatchedServlet, (run_datas calls uri slt).mpr hslt]
  · intro hnone before it since hglobs hbefore hit
    have hfind : (run calls).globs.find? (fun it => fnmatch (cStr it.1) (cStr uri) = 0) =
        some it := by
      rw [run_globs, hglobs, List.find?_append, List.find?_eq_none.mpr (by simpa using hbefore),
        List.find?_cons_of_pos (by simpa using hit)]
      rfl
    rw [getMatchedServlet, hlookup hnone, hfind]
  · intro hnone hall
    have hfind : (run calls).globs.find? (fun it => fnmatch (cStr it.1) (cStr uri) = 0) =
        none := by
      rw [run_globs]
      exact List.find?_eq_none.mpr (by simpa using hall)
    rw [getMatchedServlet, hlookup hnone, hfind]

/-- After any calls, the two containers are in order, the patterns stand
in the order in which they were last added, and a path is dispatched to
the servlet last added for it, else by the first pattern, else to the
default. -/
theorem dispatch (fnmatch : Bytes → Bytes → Int) (calls : List (Call κ σ)) :
    Orderly (run calls) ∧
      (run calls).globs = Update.live (calls.filterMap Call.glob) ∧
      ∀ uri, Matches fnmatch calls uri ((run calls).getMatchedServlet fnmatch uri) :=
  ⟨run_orderly calls, run_globs calls, getMatchedServlet_matches fnmatch calls⟩

end ServletDispatch

end Sylar
