import Mathlib.Algebra.Order.Ring.Nat
import Mathlib.Algebra.Ring.Rat
import Mathlib.Data.List.Perm.Basic
import Mathlib.Data.List.Lookmap
import Mathlib.Data.Rat.Defs

/-! JSON values as a program holds them once a document is read. Members of
an object are kept in the order of their names, one member a name, so that
equal documents are equal values. -/
namespace Json

/-- Text as the sequence of its characters. -/
abbrev Str := List Char

instance : LawfulBEq Str := inferInstance

/-- The three ways a reader keeps a number. A fraction is kept as the decimal
`mantissa * 10 ^ exponent`; rounding to binary floating point is not part of
this library. -/
inductive Number where
  | posInt (n : Nat)
  | negInt (n : Nat)
  | float (negative : Bool) (mantissa : Nat) (exponent : Int)
  deriving DecidableEq, Repr

inductive Value where
  | null
  | bool (b : Bool)
  | number (n : Number)
  | string (s : Str)
  | array (items : List Value)
  | object (fields : List (Str × Value))
  deriving Inhabited

/-- Names compare by code point, as their UTF-8 bytes do. -/
def keyCompare : Str → Str → Ordering
  | [], [] => .eq
  | [], _ :: _ => .lt
  | _ :: _, [] => .gt
  | a :: as, b :: bs =>
      if a.toNat < b.toNat then .lt
      else if b.toNat < a.toNat then .gt
      else keyCompare as bs

@[simp] theorem keyCompare_eq_iff (a b : Str) : keyCompare a b = .eq ↔ a = b := by
  induction a generalizing b with
  | nil => cases b <;> simp [keyCompare]
  | cons x xs ih =>
      cases b with
      | nil => simp [keyCompare]
      | cons y ys =>
          have hChar : x = y ↔ x.toNat = y.toNat :=
            ⟨congrArg Char.toNat, fun h => Char.ext (UInt32.toNat_inj.mp h)⟩
          simp only [keyCompare, List.cons.injEq, hChar, ← ih ys]
          split_ifs <;> simp_all <;> omega

/-- Put a member in its place; a member of that name is replaced. -/
def insertField (key : Str) (v : Value) : List (Str × Value) → List (Str × Value)
  | [] => [(key, v)]
  | (k, w) :: rest =>
      match keyCompare key k with
      | .eq => (key, v) :: rest
      | .lt => (key, v) :: (k, w) :: rest
      | .gt => (k, w) :: insertField key v rest

def lookupField (key : Str) : List (Str × Value) → Option Value
  | [] => none
  | (k, w) :: rest => if k = key then some w else lookupField key rest

/-- A member just put in is the one found, and no other lookup changes. -/
theorem lookupField_insertField (k key : Str) (v : Value) (fields : List (Str × Value)) :
    lookupField k (insertField key v fields) =
      if key = k then some v else lookupField k fields := by
  induction fields with
  | nil => rfl
  | cons field rest ih =>
      obtain ⟨name, w⟩ := field
      simp only [insertField]
      cases hOrder : keyCompare key name with
      | eq =>
          obtain rfl := (keyCompare_eq_iff key name).mp hOrder
          by_cases h : key = k <;> simp [lookupField, h]
      | lt => by_cases h : key = k <;> simp [lookupField, h]
      | gt =>
          have hNe : key ≠ name := fun h => by
            rw [(keyCompare_eq_iff key name).mpr h] at hOrder
            cases hOrder
          by_cases hName : name = k
          · have : key ≠ k := fun h => hNe (h.trans hName.symm)
            simp [lookupField, hName, this]
          · simp [lookupField, hName, ih]

/-- A new name adds its member and moves none away. -/
theorem insertField_perm {key : Str} {v : Value} {fields : List (Str × Value)}
    (fresh : key ∉ fields.map Prod.fst) :
    (insertField key v fields).Perm ((key, v) :: fields) := by
  induction fields with
  | nil => exact .refl _
  | cons field rest ih =>
      obtain ⟨name, w⟩ := field
      simp only [List.map_cons, List.mem_cons, not_or] at fresh
      simp only [insertField]
      cases hOrder : keyCompare key name with
      | eq => exact absurd ((keyCompare_eq_iff key name).mp hOrder) fresh.1
      | lt => exact .refl _
      | gt => exact ((ih fresh.2).cons _).trans (.swap ..)

/-- An object written out member by member. -/
def members (fields : List (String × Value)) : List (Str × Value) :=
  fields.foldl (fun m f => insertField f.1.toList f.2 m) []

def obj (fields : List (String × Value)) : Value := .object (members fields)

private theorem foldl_insertField_perm (fields : List (String × Value))
    (start : List (Str × Value))
    (distinct : (fields.map Prod.fst).Nodup)
    (fresh : ∀ f ∈ fields, f.1.toList ∉ start.map Prod.fst) :
    (fields.foldl (fun m f => insertField f.1.toList f.2 m) start).Perm
      (start ++ fields.map (fun f => (f.1.toList, f.2))) := by
  induction fields generalizing start with
  | nil => simp
  | cons f rest ih =>
      simp only [List.map_cons, List.nodup_cons] at distinct
      have hFresh := fresh f (by simp)
      have hStep := insertField_perm (v := f.2) hFresh
      have hRest : ∀ g ∈ rest, g.1.toList ∉
          (insertField f.1.toList f.2 start).map Prod.fst := by
        intro g hg hMem
        rcases List.mem_cons.mp ((hStep.map Prod.fst).mem_iff.mp hMem) with h | h
        · exact distinct.1 (String.toList_inj.mp h ▸ List.mem_map_of_mem hg)
        · exact fresh g (by simp [hg]) h
      refine (ih _ distinct.2 hRest).trans ?_
      refine (hStep.append_right _).trans ?_
      simpa using List.perm_middle.symm

/-- Distinct names: the members are those written, up to their order. -/
theorem members_perm {fields : List (String × Value)} (distinct : (fields.map Prod.fst).Nodup) :
    (members fields).Perm (fields.map (fun f => (f.1.toList, f.2))) := by
  simpa [members] using foldl_insertField_perm fields [] distinct (by simp)

namespace Value

def get (v : Value) (key : String) : Option Value :=
  match v with
  | .object fields => lookupField key.toList fields
  | _ => none

def asStr : Value → Option Str
  | .string s => some s
  | _ => none

def asArray : Value → Option (List Value)
  | .array items => some items
  | _ => none

def asBool : Value → Option Bool
  | .bool b => some b
  | _ => none

def asU64 : Value → Option Nat
  | .number (.posInt n) => some n
  | _ => none

def asF64 : Value → Option ℚ
  | .number (.posInt n) => some n
  | .number (.negInt n) => some (-n)
  | .number (.float negative m e) =>
      let magnitude : ℚ := if 0 ≤ e then m * 10 ^ e.toNat else m / 10 ^ (-e).toNat
      some (if negative then -magnitude else magnitude)
  | _ => none

def isNull : Value → Bool
  | .null => true
  | _ => false

def nat (n : Nat) : Value := .number (.posInt n)

@[simp] theorem asStr_string (s : Str) : (Value.string s).asStr = some s := rfl
@[simp] theorem asArray_array (items : List Value) : (Value.array items).asArray = some items := rfl
@[simp] theorem asU64_nat (n : Nat) : (nat n).asU64 = some n := rfl
@[simp] theorem asStr_null : Value.null.asStr = none := rfl
@[simp] theorem get_null (key : String) : Value.null.get key = none := rfl
@[simp] theorem get_string (s : Str) (key : String) : (Value.string s).get key = none := rfl
@[simp] theorem get_nat (n : Nat) (key : String) : (nat n).get key = none := rfl

end Value

private theorem lookupField_foldl (key : String) (fields : List (String × Value))
    (start : List (Str × Value)) :
    lookupField key.toList (fields.foldl (fun m f => insertField f.1.toList f.2 m) start) =
      (fields.foldl (fun found f => if f.1 = key then some f.2 else found)
        (lookupField key.toList start)) := by
  induction fields generalizing start with
  | nil => rfl
  | cons f rest ih =>
      simp only [List.foldl_cons, ih, lookupField_insertField, String.toList_inj]

/-- Reading a written object scans what was written, last member first. -/
@[simp] theorem get_obj (fields : List (String × Value)) (key : String) :
    (obj fields).get key =
      fields.foldl (fun found f => if f.1 = key then some f.2 else found) none :=
  lookupField_foldl key fields []

/-- Reading a member and then its value, in one scan. -/
theorem bind_get_obj {β : Type} (read : Value → Option β) (fields : List (String × Value))
    (key : String) : ((obj fields).get key).bind read =
      fields.foldl (fun found f => if f.1 = key then read f.2 else found) none := by
  rw [get_obj]
  suffices ∀ found : Option Value,
      (fields.foldl (fun found f => if f.1 = key then some f.2 else found) found).bind read =
        fields.foldl (fun found f => if f.1 = key then read f.2 else found) (found.bind read) from
    this none
  induction fields with
  | nil => intro found; rfl
  | cons f rest ih =>
      intro found
      rw [List.foldl_cons, List.foldl_cons, ih]
      split_ifs <;> rfl

/-- Members under other names leave what is found alone. -/
theorem get_obj_append {fields more : List (String × Value)} {key : String}
    (absent : key ∉ more.map Prod.fst) : (obj (fields ++ more)).get key = (obj fields).get key := by
  rw [get_obj, get_obj, List.foldl_append]
  generalize List.foldl _ none fields = found
  induction more with
  | nil => rfl
  | cons f rest ih =>
      simp only [List.map_cons, List.mem_cons, not_or] at absent
      rw [List.foldl_cons, if_neg (fun h => absent.1 h.symm), ih absent.2]

mutual
def Value.beq : Value → Value → Bool
  | .null, .null => true
  | .bool a, .bool b => a == b
  | .number a, .number b => decide (a = b)
  | .string a, .string b => decide (a = b)
  | .array a, .array b => itemsBeq a b
  | .object a, .object b => fieldsBeq a b
  | _, _ => false

def itemsBeq : List Value → List Value → Bool
  | [], [] => true
  | a :: as, b :: bs => a.beq b && itemsBeq as bs
  | _, _ => false

def fieldsBeq : List (Str × Value) → List (Str × Value) → Bool
  | [], [] => true
  | (j, a) :: as, (k, b) :: bs => decide (j = k) && a.beq b && fieldsBeq as bs
  | _, _ => false
end

mutual
theorem Value.beq_iff (a b : Value) : a.beq b = true ↔ a = b := by
  cases a <;> cases b <;> simp [Value.beq, itemsBeq_iff, fieldsBeq_iff]

theorem itemsBeq_iff (as bs : List Value) : itemsBeq as bs = true ↔ as = bs := by
  cases as <;> cases bs <;> simp [itemsBeq, Value.beq_iff, itemsBeq_iff]

theorem fieldsBeq_iff (as bs : List (Str × Value)) : fieldsBeq as bs = true ↔ as = bs := by
  match as, bs with
  | [], [] => simp [fieldsBeq]
  | [], _ :: _ => simp [fieldsBeq]
  | _ :: _, [] => simp [fieldsBeq]
  | (j, a) :: as, (k, b) :: bs =>
      simp [fieldsBeq, Value.beq_iff a b, fieldsBeq_iff as bs, and_assoc]
end

instance : DecidableEq Value := fun a b => decidable_of_iff _ (Value.beq_iff a b)

end Json
