import SecureLayout.Proofs.Entries
import SecureLayout.Sandbox.Guest

/-!
Updates of a value at a dotted path, as a guest applies them to its context. Main statement: an update is refused just
where its path has an empty segment, and then the guest is as before; otherwise the path reads as what was set, paths
apart from it read as before, of two updates at one path the later counts, and updates at paths that are apart may
come in either order. None of this needs the nodes on the way to be objects.
-/

namespace SecureLayout.Json.Value

/-- Neither path is the beginning of the other. -/
def Apart (ks ls : List String) : Prop := ¬ ks <+: ls ∧ ¬ ls <+: ks

instance (ks ls : List String) : Decidable (Apart ks ls) := inferInstanceAs (Decidable (_ ∧ _))

variable {k l : String} {ks ls : List String}

theorem not_apart_nil (ls : List String) : ¬ Apart [] ls :=
  fun h => h.1 List.nil_prefix

theorem Apart.symm (h : Apart ks ls) : Apart ls ks := ⟨h.2, h.1⟩

theorem apart_cons_self_iff : Apart (k :: ks) (k :: ls) ↔ Apart ks ls := by
  simp [Apart, List.cons_prefix_cons]

theorem get?_members (k : String) (v : Value) : Entries.get? k v.members = v.member? k := by
  cases v <;> rfl

/-- Writing at a path of several keys touches the member under the first one only. -/
theorem member?_setAt (k l : String) (ks : List String) (new v : Value) :
    (setAt (k :: ks) new v).member? l =
      if l = k then some (setAt ks new ((v.member? k).getD (.object []))) else v.member? l := by
  rw [setAt, member?, Entries.get?_put, get?_members]

theorem members_setAt (k : String) (ks : List String) (new v : Value) :
    (setAt (k :: ks) new v).members =
      Entries.put k (setAt ks new ((v.member? k).getD (.object []))) v.members := rfl

/-- What is not there reads like an empty object. -/
theorem getAt_getD (hls : ls ≠ []) (o : Option Value) : getAt ls (o.getD (.object [])) = o.bind (getAt ls) := by
  cases o with
  | some v => rfl
  | none =>
    cases ls with
    | nil => exact absurd rfl hls
    | cons l ls => rfl

theorem getAt_setAt_of_apart (h : Apart ks ls) (new v : Value) : getAt ls (setAt ks new v) = getAt ls v := by
  induction ks generalizing ls v with
  | nil => exact absurd h (not_apart_nil ls)
  | cons k ks ih =>
    cases ls with
    | nil => exact absurd h.symm (not_apart_nil _)
    | cons l ls =>
      rw [getAt, getAt, member?_setAt]
      by_cases hl : l = k
      · subst hl
        have hrest := apart_cons_self_iff.1 h
        have hls : ls ≠ [] := fun he => not_apart_nil ks (he ▸ hrest.symm)
        rw [if_pos rfl, Option.bind_some, ih hrest, getAt_getD hls]
      · rw [if_neg hl]

/-- Of two values that are written at one path the later stays. -/
theorem setAt_setAt (ks : List String) (a b v : Value) : setAt ks b (setAt ks a v) = setAt ks b v := by
  induction ks generalizing v with
  | nil => rfl
  | cons k ks ih =>
    rw [setAt, member?_setAt, if_pos rfl, Option.getD_some, ih, members_setAt, Entries.put_put]
    rfl

/-- Values at paths that are apart may be written in either order. -/
theorem setAt_comm (h : Apart ks ls) (a b v : Value) :
    setAt ls b (setAt ks a v) = setAt ks a (setAt ls b v) := by
  induction ks generalizing ls v with
  | nil => exact absurd h (not_apart_nil ls)
  | cons k ks ih =>
    cases ls with
    | nil => exact absurd h.symm (not_apart_nil _)
    | cons l ls =>
      rw [setAt, member?_setAt, members_setAt, setAt, member?_setAt, members_setAt]
      by_cases hl : l = k
      · subst hl
        rw [if_pos rfl, if_pos rfl, Option.getD_some, Option.getD_some, ih (apart_cons_self_iff.1 h), Entries.put_put,
          Entries.put_put]
      · rw [if_neg hl, if_neg (Ne.symm hl), Entries.put_comm (Ne.symm hl)]

/-! ### Dotted paths -/

variable {p q : String}

theorem setPath_of_not_mem (h : "" ∉ pathSegments p) (v new : Value) :
    v.setPath p new = .ok (setAt (pathSegments p) new v) := by
  simp [setPath, h]

theorem setPath_eq_error_iff (v new : Value) (p : String) :
    (∃ e, v.setPath p new = .error e) ↔ "" ∈ pathSegments p := by
  rw [← not_iff_not, ← setPath_eq_ok_iff v new p]
  cases v.setPath p new <;> simp

theorem eq_setAt_of_setPath {v new w : Value} (h : v.setPath p new = .ok w) :
    "" ∉ pathSegments p ∧ w = setAt (pathSegments p) new v := by
  have hp := (setPath_eq_ok_iff v new p).1 ⟨w, h⟩
  rw [setPath_of_not_mem hp] at h
  exact ⟨hp, (Except.ok.inj h).symm⟩

end SecureLayout.Json.Value

namespace SecureLayout.Sandbox.Guest

open Json Json.Value
open Wire (FrameMessage)

/-- Whatever the context is, an update of it is refused exactly where its path has an empty segment, and then the guest
answers with the fault and is as before. Otherwise the path reads as what was set, any path that neither begins with it
nor is its beginning reads as before, and a later update at the same path leaves nothing of the first. Two updates at
such paths, both without empty segments, give the same in either order. -/
theorem context_updates_lawful (context v w : Value) (p q : String) :
    ((∃ e, context.setPath p v = .error e) ↔ "" ∈ pathSegments p) ∧
    (∀ e, context.setPath p v = .error e → ∀ (g : Guest) (raw : String), g.document.context = context →
      FrameMessage.decode raw = .ok (.updateContext p v) → g.receive raw = (some (.error e.message), g)) ∧
    (∀ after, context.setPath p v = .ok after →
      getAt (pathSegments p) after = some v ∧
      (Apart (pathSegments p) (pathSegments q) →
        getAt (pathSegments q) after = getAt (pathSegments q) context) ∧
      after.setPath p w = context.setPath p w) ∧
    ("" ∉ pathSegments p → "" ∉ pathSegments q → Apart (pathSegments p) (pathSegments q) →
      ∃ first second both, context.setPath p v = .ok first ∧ first.setPath q w = .ok both ∧
        context.setPath q w = .ok second ∧ second.setPath p v = .ok both) := by
  refine ⟨setPath_eq_error_iff context v p, ?_, ?_, ?_⟩
  · rintro e he g raw rfl hraw
    exact document_receive_of_badPath g raw p v e hraw he
  · intro after hafter
    obtain ⟨hp, rfl⟩ := eq_setAt_of_setPath hafter
    refine ⟨getAt_setAt _ v context, fun h => getAt_setAt_of_apart h v context, ?_⟩
    rw [setPath_of_not_mem hp, setPath_of_not_mem hp, setAt_setAt]
  · intro hp hq h
    refine ⟨_, _, _, setPath_of_not_mem hp _ _, setPath_of_not_mem hq _ _, setPath_of_not_mem hq _ _, ?_⟩
    rw [setPath_of_not_mem hp, setAt_comm h]

/-- A context with a list where a path asks for an object. -/
def listed : Value := .object [("a", .list [.null]), ("b", .object [("c", .bool true)])]

theorem context_updates_lawful_listed :
    "" ∉ pathSegments "a.x" ∧ "" ∉ pathSegments "b.d.e" ∧ Apart (pathSegments "a.x") (pathSegments "b.d.e") ∧
      (∃ e, listed.setPath "b..e" .null = .error e) ∧
      ∃ first second, listed.setPath "a.x" (.bool false) = .ok first ∧ listed.setPath "b.d.e" .null = .ok second ∧
        getAt ["a", "x"] first = some (.bool false) ∧ getAt ["b", "d", "e"] first = none ∧
        first.setPath "b.d.e" .null = second.setPath "a.x" (.bool false) := by
  have hp : "" ∉ pathSegments "a.x" := by decide +kernel
  have hq : "" ∉ pathSegments "b.d.e" := by decide +kernel
  have hapart : Apart (pathSegments "a.x") (pathSegments "b.d.e") := by decide +kernel
  have hempty : "" ∈ pathSegments "b..e" := by decide +kernel
  obtain ⟨hrefused, -⟩ := context_updates_lawful listed .null .null "b..e" "a"
  obtain ⟨-, -, hset, hcomm⟩ := context_updates_lawful listed (.bool false) .null "a.x" "b.d.e"
  obtain ⟨first, second, both, hfirst, hboth, hsecond, hother⟩ := hcomm hp hq hapart
  obtain ⟨hread, hkept, -⟩ := hset first hfirst
  exact ⟨hp, hq, hapart, hrefused.2 hempty, first, second, hfirst, hsecond, hread, hkept hapart,
    hboth.trans hother.symm⟩

end SecureLayout.Sandbox.Guest
