import Mathlib.Data.List.TakeWhile
import Pskynet.Harbor.Moves
import Pskynet.Server.Send

set_option autoImplicit false

namespace Pskynet.Harbor

open Server.Sending (copyName)

-- What `tonumber` reads as a number: blanks around a sign and a decimal or hexadecimal numeral.
section

def isHexDigit (byte : UInt8) : Bool :=
  isDigit byte ∨ 0x61 ≤ byte ∧ byte ≤ 0x66 ∨ 0x41 ≤ byte ∧ byte ≤ 0x46

def dropSign (bytes : List UInt8) : List UInt8 :=
  if bytes.head? = some 0x2d ∨ bytes.head? = some 0x2b then bytes.tail else bytes

def dropMantissa (digit : UInt8 → Bool) (bytes : List UInt8) : Option (List UInt8) :=
  let left := bytes.dropWhile digit
  let fraction := if left.head? = some 0x2e then left.tail.takeWhile digit else []
  let left := if left.head? = some 0x2e then left.tail.dropWhile digit else left
  if bytes.takeWhile digit = [] ∧ fraction = [] then none else some left

def dropExponent (mark : UInt8) (bytes : List UInt8) : List UInt8 :=
  let digits := dropSign bytes.tail
  if (bytes.head? = some mark ∨ bytes.head? = some (mark + 0x20)) ∧ digits.takeWhile isDigit ≠ [] then
    digits.dropWhile isDigit
  else bytes

def tonumber (name : List UInt8) : Bool :=
  let bytes := dropSign (name.dropWhile isSpace)
  let rest :=
    if bytes.head? = some 0x30 ∧ (bytes.tail.head? = some 0x78 ∨ bytes.tail.head? = some 0x58) then
      (dropMantissa isHexDigit (bytes.drop 2)).map (dropExponent 0x50)
    else (dropMantissa isDigit bytes).map (dropExponent 0x45)
  match rest with
  | some rest => rest.all isSpace
  | none => false

end

-- There is no result where an assertion fails.
def globalname (name : List UInt8) : Option Bool :=
  if name.head? = some 0x3a then none
  else if name.head? = some 0x2e then some false
  else if ¬name.length ≤ 16 then none
  else if tonumber name then none
  else some true

def nCommand (name : List UInt8) : List UInt8 := [0x4e, 0x20] ++ name

def Registers (name : List UInt8) (key : Name) : Prop :=
  ∀ (h : Harbor) (source : UInt32), harborCommand h (nCommand name) source = updateName h key source

-- The key of a message to a name: `skynet_sendname` gets the name as a C string.
def sentKey (name : List UInt8) : Name := toName (copyName (cString name))

structure Agree (name other : List UInt8) : Prop where
  found : Registers name (sentKey name)
  otherFound : Registers other (sentKey other)
  apart : name ≠ other → ∀ key otherKey, Registers name key → Registers other otherKey →
    nameKey key ≠ nameKey otherKey

def Plain (name : List UInt8) : Prop :=
  0 < name.length ∧ name.length < globalNameLength ∧ ∀ byte ∈ name.dropWhile (· ≠ 0), byte = 0

instance (name : List UInt8) : Decidable (Plain name) :=
  inferInstanceAs (Decidable (_ ∧ _ ∧ _))

def blank : Harbor := harborCreate (fun _ _ => true) 1 9

theorem updateName_blank (key : Name) (source : UInt32) :
    updateName blank key source = some { blank with
      map := Function.update (fun _ => []) (bucket key)
        [{ key := key, hash := nameHash key, value := source, queue := none }] } := by
  have created : blank.map = fun _ => [] := rfl
  have none_ : hashSearch (fun _ => []) key = none := rfl
  have node : hashNode (fun _ => []) key = Function.update (fun _ => []) (bucket key)
      [{ key := key, hash := nameHash key, value := 0, queue := none }] := by
    rw [hashNode, none_]
    rfl
  have found : hashSearch (hashNode (fun _ => []) key) key =
      some { key := key, hash := nameHash key, value := 0, queue := none } := by
    rw [node, hashSearch, Function.update_self]
    simp [KeyValue.nameKey, nameKey]
  unfold updateName
  simp only [created, found, Option.bind_some]
  rw [hashWrite, node, Function.update_self, Function.update_idem]
  simp [KeyValue.nameKey, nameKey]

theorem updateName_inj (key other : Name) (source : UInt32)
    (same : updateName blank key source = updateName blank other source) : key = other := by
  rw [updateName_blank, updateName_blank] at same
  have maps := congrFun (congrArg Harbor.map (Option.some.inj same)) (bucket key)
  simp only [Function.update_self] at maps
  by_cases shared : bucket key = bucket other
  · rw [shared, Function.update_self] at maps
    exact congrArg KeyValue.key (List.cons.inj maps).1
  · rw [Function.update_of_ne shared] at maps
    exact absurd maps (List.cons_ne_nil _ _)

theorem bindsName_nCommand (name : List UInt8) :
    bindsName (nCommand name) =
      if 0 < name.length ∧ name.length < globalNameLength then some (toName name) else none := by
  unfold bindsName nCommand
  simp only [List.cons_append, List.nil_append, List.head?_cons, List.drop_succ_cons, List.drop_zero]
  by_cases good : 0 < name.length ∧ name.length < globalNameLength
  · rw [if_pos good, if_pos ⟨trivial, by omega⟩]
  · rw [if_neg good, if_neg (fun both => good (by omega))]

theorem registers_iff (name : List UInt8) (key : Name) :
    Registers name key ↔
      (0 < name.length ∧ name.length < globalNameLength) ∧ toName name = key := by
  have binds := bindsName_nCommand name
  constructor
  · intro registers
    have here := registers blank 7
    by_cases good : 0 < name.length ∧ name.length < globalNameLength
    · rw [if_pos good] at binds
      rw [harborCommand_binds blank _ 7 _ binds] at here
      exact ⟨good, updateName_inj _ _ 7 here⟩
    · -- The command is refused, and no name is written.
      have refused : harborCommand blank (nCommand name) 7 =
          some (blank.did (.error ("Invalid global name " ++ text name))) := by
        show (if name.length = 0 ∨ globalNameLength ≤ name.length then _ else _) = _
        exact if_pos (by omega)
      rw [refused, updateName_blank] at here
      have maps := congrFun (congrArg Harbor.map (Option.some.inj here)) (bucket key)
      simp only [Function.update_self] at maps
      exact absurd maps.symm (List.cons_ne_nil _ _)
  · rintro ⟨good, rfl⟩ h source
    rw [if_pos good] at binds
    exact harborCommand_binds h _ source _ binds

theorem toName_copyName (bytes : List UInt8) : toName (copyName bytes) = toName bytes := by
  funext i
  have bound := i.isLt
  unfold toName copyName
  rw [List.getD_eq_getElem?_getD, List.getD_eq_getElem?_getD, List.getElem?_take_of_lt bound]
  by_cases inside : i.val < bytes.length
  · rw [List.getElem?_append_left inside]
  · rw [List.getElem?_append_right (by omega), List.getElem?_replicate_of_lt (by omega),
      List.getElem?_eq_none (by omega)]
    rfl

theorem cString_append (name : List UInt8) :
    cString name ++ name.dropWhile (· ≠ 0) = name := List.takeWhile_append_dropWhile

theorem toName_eq_iff (name : List UInt8) (fits : name.length < globalNameLength) :
    toName name = toName (cString name) ↔ ∀ byte ∈ name.dropWhile (· ≠ 0), byte = 0 := by
  have whole := cString_append name
  have length := congrArg List.length whole
  have limit : globalNameLength = 16 := rfl
  rw [List.length_append] at length
  -- Behind the C string stand zeros in the one, the other part in the other.
  have behind (k : Nat) : name.getD ((cString name).length + k) 0 =
      (name.dropWhile (· ≠ 0)).getD k 0 := by
    calc name.getD ((cString name).length + k) 0
        = (cString name ++ name.dropWhile (· ≠ 0)).getD ((cString name).length + k) 0 := by rw [whole]
      _ = (name.dropWhile (· ≠ 0)).getD k 0 := by
          rw [List.getD_append_right _ _ _ _ (by omega), Nat.add_sub_cancel_left]
  have past (k : Nat) : (cString name).getD ((cString name).length + k) 0 = 0 :=
    List.getD_eq_default _ _ (by omega)
  constructor
  · intro same byte inside
    obtain ⟨k, bound, rfl⟩ := List.getElem_of_mem inside
    have here := congrFun same ⟨(cString name).length + k, by omega⟩
    simp only [toName] at here
    rw [behind, past, List.getD_eq_getElem _ _ bound] at here
    exact here
  · intro zeros
    funext i
    simp only [toName]
    by_cases front : i.val < (cString name).length
    · calc name.getD i 0 = (cString name ++ name.dropWhile (· ≠ 0)).getD i 0 := by rw [whole]
        _ = (cString name).getD i 0 := List.getD_append _ _ _ _ front
    · obtain ⟨k, distance⟩ : ∃ k, i.val = (cString name).length + k :=
        ⟨i.val - (cString name).length, by omega⟩
      rw [distance, behind, past]
      by_cases bound : k < (name.dropWhile (· ≠ 0)).length
      · rw [List.getD_eq_getElem _ _ bound]
        exact zeros _ (List.getElem_mem bound)
      · exact List.getD_eq_default _ _ (by omega)

theorem registers_sentKey (name : List UInt8) : Registers name (sentKey name) ↔ Plain name := by
  rw [registers_iff, sentKey, toName_copyName]
  constructor
  · rintro ⟨⟨pos, fits⟩, same⟩
    exact ⟨pos, fits, (toName_eq_iff name fits).mp same⟩
  · rintro ⟨pos, fits, zeros⟩
    exact ⟨⟨pos, fits⟩, (toName_eq_iff name fits).mpr zeros⟩

theorem ofFn_toName (bytes : List UInt8) (fits : bytes.length ≤ 16) :
    List.ofFn (toName bytes) = bytes ++ List.replicate (16 - bytes.length) 0 := by
  apply List.ext_getElem
  · simp only [List.length_ofFn, List.length_append, List.length_replicate]
    omega
  · intro i bound other
    rw [List.getElem_ofFn]
    show bytes.getD i 0 = _
    by_cases inside : i < bytes.length
    · rw [List.getElem_append_left inside, List.getD_eq_getElem _ _ inside]
    · rw [List.getElem_append_right (by omega), List.getElem_replicate,
        List.getD_eq_default _ _ (by omega)]

theorem mem_cString {name : List UInt8} {byte : UInt8} (inside : byte ∈ cString name) :
    decide (byte ≠ 0) = true := by
  exact List.mem_takeWhile_imp (p := fun byte => decide (byte ≠ 0)) inside

theorem cString_sentKey (name : List UInt8) (fits : name.length < globalNameLength) :
    cString (List.ofFn (sentKey name)) = cString name := by
  have limit : globalNameLength = 16 := rfl
  have length := congrArg List.length (cString_append name)
  rw [List.length_append] at length
  obtain ⟨n, room⟩ : ∃ n, 16 - (cString name).length = n + 1 := ⟨15 - (cString name).length, by omega⟩
  rw [sentKey, toName_copyName, ofFn_toName _ (by omega), room, List.replicate_succ]
  show (cString name ++ 0 :: _).takeWhile _ = _
  rw [List.takeWhile_append_of_pos fun _ => mem_cString, List.takeWhile_cons_of_neg (by decide), List.append_nil]

theorem names_agree_iff (name other : List UInt8) :
    globalname name = some true → globalname other = some true →
      (Agree name other ↔
        Plain name ∧ Plain other ∧ (name ≠ other → cString name ≠ cString other)) := by
  intro _ _
  constructor
  · rintro ⟨found, otherFound, apart⟩
    refine ⟨(registers_sentKey _).mp found, (registers_sentKey _).mp otherFound, fun differ same => ?_⟩
    refine apart differ _ _ found otherFound ?_
    rw [sentKey, sentKey, same]
  · rintro ⟨plain, otherPlain, apart⟩
    have found := (registers_sentKey _).mpr plain
    have otherFound := (registers_sentKey _).mpr otherPlain
    refine ⟨found, otherFound, fun differ key otherKey registers otherRegisters same => ?_⟩
    have here := ((registers_iff _ _).mp found).2
    have there := ((registers_iff _ _).mp otherFound).2
    rw [← ((registers_iff _ _).mp registers).2, ← ((registers_iff _ _).mp otherRegisters).2, here,
      there] at same
    refine apart differ ?_
    rw [← cString_sentKey name plain.2.1, ← cString_sentKey other otherPlain.2.1]
    exact congrArg Prod.snd same

theorem names_agree_short : Agree [0x64, 0x62] [0x64] ↔
    Plain [0x64, 0x62] ∧ Plain [0x64] ∧
      (([0x64, 0x62] : List UInt8) ≠ [0x64] → cString [0x64, 0x62] ≠ cString [0x64]) :=
  names_agree_iff [0x64, 0x62] [0x64] (by decide) (by decide)

theorem longest_name_refused :
    globalname (List.replicate 16 0x61) = some true ∧
      ¬Agree (List.replicate 16 0x61) (List.replicate 16 0x61) := by
  refine ⟨by decide, fun agree => ?_⟩
  exact absurd ((registers_iff _ _).mp agree.found).1.2 (by decide)

end Pskynet.Harbor
