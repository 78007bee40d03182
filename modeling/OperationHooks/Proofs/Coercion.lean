import Mathlib.Data.Option.Basic
import OperationHooks.Coercion

set_option autoImplicit false

namespace OperationHooks

theorem Datum.find?_concat (key other : String) (value : Datum) (entries : List (Datum × Datum)) :
    Datum.find? key (entries ++ [(.text other,value)]) =
      if other == key then some value else Datum.find? key entries := by
  rw [Datum.find?,List.foldl_append]
  rfl

namespace Reading

variable {α β : Type} {entries : List (Datum × Datum)} {names : List String} {otherwise x y : α}
  {coerce : Datum → Except Mismatch α}

theorem both_eq_ok {r : Reading α} {s : Reading β} {y : β} :
    both r s = .ok (x,y) ↔ r = .ok x ∧ s = .ok y := by
  cases r <;> cases s <;> simp [both]

theorem map_eq_ok {r : Reading α} {f : α → β} {y : β} :
    r.map f = .ok y ↔ ∃ x, r = .ok x ∧ f x = y := by
  cases r <;> simp [Except.map]

theorem under_eq_ok {r : Reading α} {step : Datum.Step} : under step r = .ok x ↔ r = .ok x := by
  cases r <;> simp [under,Except.mapError]

theorem ofCoercion_eq_ok {r : Except Mismatch α} : ofCoercion r = .ok x ↔ r = .ok x := by
  cases r <;> simp [ofCoercion,Except.mapError]

/-- What a table says under the first of some names that is there. -/
def setting? (entries : List (Datum × Datum)) (names : List String) : Option Datum :=
  names.findSome? fun name => Datum.find? name entries

def Sets (entries : List (Datum × Datum)) (names : List String)
    (coerce : Datum → Except Mismatch α) (x : α) :
    Prop :=
  ∃ d, setting? entries names = some d ∧ coerce d = .ok x

def Gives (entries : List (Datum × Datum)) (names : List String) (otherwise : α)
    (coerce : Datum → Except Mismatch α) (x : α) : Prop :=
  Sets entries names coerce x ∨ setting? entries names = none ∧ x = otherwise

theorem field_eq_ok :
    field entries names (.ok otherwise) (fun d => .ofCoercion (coerce d)) = .ok x ↔
    Gives entries names otherwise coerce x := by
  have hsetting : setting? entries names =
      (names.findSome? fun name => (Datum.find? name entries).map
        fun d => (name,d)).map Prod.snd := by
    rw [setting?,List.map_findSome?]
    refine congrArg (List.findSome? · names) (funext fun name => ?_)
    rw [Function.comp_apply,Option.map_map]
    exact Option.map_id'.symm
  rw [field,Gives,Sets,hsetting]
  split
  · rename_i name d hd
    simp [hd,under_eq_ok,ofCoercion_eq_ok]
  · rename_i hd
    simp [hd,eq_comm]

theorem setting?_concat {name : String} (h : name ∉ names) (value : Datum) :
    setting? (entries ++ [(.text name,value)]) names = setting? entries names := by
  induction names with
  | nil => rfl
  | cons first rest ih =>
    obtain ⟨hfirst,hrest⟩ := List.ne_and_not_mem_of_not_mem_cons h
    have hfind :
        Datum.find? first (entries ++ [(.text name,value)]) = Datum.find? first entries := by
      rw [Datum.find?_concat,if_neg (by simpa using hfirst)]
    have hih := ih hrest
    rw [setting?] at hih
    rw [setting?,List.findSome?_cons,hfind,hih]
    rfl

theorem gives_concat {name : String} (h : name ∉ names) (value : Datum) :
    Gives (entries ++ [(.text name,value)]) names otherwise coerce x ↔
    Gives entries names otherwise coerce x := by
  simp only [Gives,Sets,setting?_concat h]

theorem gives_last {name s : String} {coerce : Datum → Except Mismatch String}
    {x otherwise : String}
    (h : coerce (.text s) = .ok s) :
    Gives (entries ++ [(.text name,.text s)]) [name] otherwise coerce x ↔ x = s := by
  have hlast : setting? (entries ++ [(.text name,.text s)]) [name] = some (.text s) := by
    rw [setting?,List.findSome?_singleton,Datum.find?_concat,beq_self_eq_true]
    rfl
  simp [Gives,Sets,hlast,h,eq_comm]

end Reading

end OperationHooks
