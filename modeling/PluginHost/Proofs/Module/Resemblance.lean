import PluginHost.Module.Evaluator

/-!
Values that differ in nothing but the places of evaluated modules. What a running file does with a
value never depends on where modules are, so it does the same with values that resemble each other.
-/
namespace PluginHost

/-- Bindings are looked up by name. -/
abbrev Bindings := List (String × Value)

namespace Value

mutual

/-- Values that are the same but for the places of evaluated modules, which correspond. -/
inductive Resembles (P : Nat → Nat → Prop) : Value → Value → Prop where
  | null : Resembles P .null .null
  | bool (b : Bool) : Resembles P (.bool b) (.bool b)
  | int (i : Int) : Resembles P (.int i) (.int i)
  | float (x : Float) : Resembles P (.float x) (.float x)
  | text (s : String) : Resembles P (.text s) (.text s)
  | list {vs ws : List Value} (items : AllResemble P vs ws) : Resembles P (.list vs) (.list ws)
  | dict {es fs : Bindings} (entries : BindingsResemble P es fs) :
      Resembles P (.dict es) (.dict fs)
  | host (name : String) : Resembles P (.module (.host name)) (.module (.host name))
  | file {i j : Nat} (place : P i j) : Resembles P (.module (.file i)) (.module (.file j))

inductive AllResemble (P : Nat → Nat → Prop) : List Value → List Value → Prop where
  | nil : AllResemble P [] []
  | cons {v w : Value} {vs ws : List Value} (first : Resembles P v w)
      (rest : AllResemble P vs ws) : AllResemble P (v :: vs) (w :: ws)

inductive BindingsResemble (P : Nat → Nat → Prop) : Bindings → Bindings → Prop where
  | nil : BindingsResemble P [] []
  | cons {name : String} {v w : Value} {es fs : Bindings} (first : Resembles P v w)
      (rest : BindingsResemble P es fs) : BindingsResemble P ((name, v) :: es) ((name, w) :: fs)

end

mutual

/-- Whether a value leads to no evaluated module but the first ones, up to a number of them. -/
def within (k : Nat) : Value → Bool
  | .list vs => allWithin k vs
  | .dict es => bindingsWithin k es
  | .module (.file i) => i < k
  | _ => true

def allWithin (k : Nat) : List Value → Bool
  | [] => true
  | v :: vs => within k v && allWithin k vs

def bindingsWithin (k : Nat) : Bindings → Bool
  | [] => true
  | (_, v) :: es => within k v && bindingsWithin k es

end

variable {P Q : Nat → Nat → Prop} {v w : Value} {vs ws : List Value} {es fs : Bindings} {k : Nat}
  {name : String}

mutual

theorem Resembles.mono (h : ∀ i j, P i j → Q i j) : ∀ {v w : Value}, Resembles P v w →
    Resembles Q v w
  | _, _, .null => .null
  | _, _, .bool b => .bool b
  | _, _, .int i => .int i
  | _, _, .float x => .float x
  | _, _, .text s => .text s
  | _, _, .list items => .list (items.mono h)
  | _, _, .dict entries => .dict (entries.mono h)
  | _, _, .host name => .host name
  | _, _, .file place => .file (h _ _ place)

theorem AllResemble.mono (h : ∀ i j, P i j → Q i j) : ∀ {vs ws : List Value},
    AllResemble P vs ws → AllResemble Q vs ws
  | _, _, .nil => .nil
  | _, _, .cons first rest => .cons (first.mono h) (rest.mono h)

theorem BindingsResemble.mono (h : ∀ i j, P i j → Q i j) : ∀ {es fs : Bindings},
    BindingsResemble P es fs → BindingsResemble Q es fs
  | _, _, .nil => .nil
  | _, _, .cons first rest => .cons (first.mono h) (rest.mono h)

end

theorem BindingsResemble.lookup (h : BindingsResemble P es fs) (name : String) :
    Option.Rel (Resembles P) (lookup? name es) (lookup? name fs) := by
  induction es generalizing fs with
  | nil =>
    cases h
    exact .none
  | cons e es ih =>
    cases h with
    | cons first rest =>
      rw [lookup?, lookup?]
      dsimp only
      split
      · exact .some first
      · exact ih rest

theorem BindingsResemble.put (h : BindingsResemble P es fs) (hv : Resembles P v w)
    (name : String) : BindingsResemble P (putEntry name v es) (putEntry name w fs) := by
  induction es generalizing fs with
  | nil =>
    cases h
    exact .cons hv .nil
  | cons e es ih =>
    cases h with
    | cons first rest =>
      rw [putEntry, putEntry]
      dsimp only
      split
      · exact .cons hv rest
      · exact .cons first (ih rest)

mutual

/-- A value resembles itself if the modules that it leads to stay where they are. -/
theorem Resembles.refl (h : ∀ i < k, P i i) : ∀ v : Value, v.within k = true → Resembles P v v
  | .null, _ => .null
  | .bool b, _ => .bool b
  | .int i, _ => .int i
  | .float x, _ => .float x
  | .text s, _ => .text s
  | .list vs, hv => .list (AllResemble.refl h vs (by rwa [within] at hv))
  | .dict es, hv => .dict (BindingsResemble.refl h es (by rwa [within] at hv))
  | .module (.host name), _ => .host name
  | .module (.file i), hv => .file (h i (by rw [within] at hv; exact of_decide_eq_true hv))

theorem AllResemble.refl (h : ∀ i < k, P i i) : ∀ vs : List Value, allWithin k vs = true →
    AllResemble P vs vs
  | [], _ => .nil
  | v :: vs, hv => by
    rw [allWithin, Bool.and_eq_true] at hv
    exact .cons (Resembles.refl h v hv.1) (AllResemble.refl h vs hv.2)

theorem BindingsResemble.refl (h : ∀ i < k, P i i) : ∀ es : Bindings,
    bindingsWithin k es = true → BindingsResemble P es es
  | [], _ => .nil
  | (_, v) :: es, hv => by
    rw [bindingsWithin, Bool.and_eq_true] at hv
    exact .cons (Resembles.refl h v hv.1) (BindingsResemble.refl h es hv.2)

end

mutual

/-- Values read from JSON lead to no modules. -/
theorem within_ofJson : ∀ v : Json, (ofJson v).within k = true
  | .null | .bool _ | .int _ | .float _ | .text _ => rfl
  | .array items => allWithin_ofItems items
  | .object fields => bindingsWithin_ofFields fields

theorem allWithin_ofItems : ∀ vs : List Json, allWithin k (ofItems vs) = true
  | [] => rfl
  | v :: vs => by rw [ofItems, allWithin, within_ofJson v, allWithin_ofItems vs, Bool.and_self]

theorem bindingsWithin_ofFields : ∀ fs : List (String × Json), bindingsWithin k (ofFields fs) = true
  | [] => rfl
  | (_, v) :: fs => by
    rw [ofFields, bindingsWithin, within_ofJson v, bindingsWithin_ofFields fs, Bool.and_self]

end

end Value

end PluginHost
