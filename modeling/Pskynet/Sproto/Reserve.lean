import Pskynet.Sproto.Encode
import Pskynet.Sproto.Schema

set_option autoImplicit false

namespace Pskynet.Sproto

open Lua

variable (number : Scalar → List UInt8) (struct : Option EncodeStruct)

def encodeStart (st : SprotoType) (ud : EncodeUd) (size : Int) : EncodeState :=
  { records := []
    lasttag := -1
    data := []
    size := size - (sizeofHeader + st.maxn * sizeofField : Nat)
    ud := ud }

theorem encodeStep_records (state next : EncodeState) (field : Field)
    (step : encodeStep number struct state field = .ok next) :
    (next.records.length = state.records.length ∧ next.lasttag = state.lasttag) ∨
      (next.records.length =
          state.records.length + (if (field.tag : Int) > state.lasttag + 1 then 2 else 1) ∧
        next.lasttag = field.tag) := by
  unfold encodeStep at step
  rcases encoded : encodeField (encode number struct field) field state.ud state.size with
    why | ⟨value, data, ud⟩
  · rw [encoded] at step
    cases step
  · rw [encoded] at step
    simp only [bind, Except.bind] at step
    split_ifs at step with missing long skip <;> cases step
    · exact .inl ⟨rfl, rfl⟩
    · refine .inr ⟨?_, rfl⟩
      rw [if_pos (by omega)]
      simp
    · refine .inr ⟨?_, rfl⟩
      rw [if_neg (by omega)]
      simp

-- A skip record for the last field is one that the type counts, too. When the last field is
-- omitted, its own slot is free for a skip record that the type does not count.
def Reserved (last : Int) (slots : Nat) (state : EncodeState) : Prop :=
  if state.lasttag = last then state.records.length ≤ slots
  else state.records.length < slots

theorem encodeStep_reserved (last : Int) (slots : Nat) (state next : EncodeState) (field : Field)
    (reserved : Reserved last slots state)
    (step : encodeStep number struct state field = .ok next) :
    Reserved field.tag (slots + if (field.tag : Int) > last + 1 then 2 else 1) next := by
  unfold Reserved at reserved ⊢
  rcases encodeStep_records number struct state next field step with
    ⟨records, lasttag⟩ | ⟨records, lasttag⟩
  · rw [records, lasttag]
    split_ifs at reserved ⊢ <;> omega
  · rw [if_pos lasttag, records]
    split_ifs at reserved ⊢ <;> omega

theorem encodeFields_reserved (fields : List Field) (last : Int) (slots : Nat)
    (state final : EncodeState) (reserved : Reserved last slots state)
    (run : fields.foldlM (encodeStep number struct) state = .ok final) :
    final.records.length ≤ slots + fields.length + gaps last fields := by
  induction fields generalizing last slots state with
  | nil =>
    cases run
    unfold Reserved at reserved
    split_ifs at reserved <;> simp only [List.length_nil, gaps] <;> omega
  | cons field rest ih =>
    rw [List.foldlM_cons] at run
    cases step : encodeStep number struct state field with
    | error why =>
      rw [step] at run
      cases run
    | ok next =>
      rw [step] at run
      have fits := ih _ _ _ (encodeStep_reserved number struct last slots state next field
        reserved step) run
      rw [List.length_cons, gaps]
      split_ifs at fits ⊢ <;> omega

theorem gaps_append (last : Int) (fields more : List Field) :
    gaps last fields ≤ gaps last (fields ++ more) := by
  induction fields generalizing last with
  | nil => exact Nat.zero_le _
  | cons field rest ih =>
    rw [List.cons_append, gaps, gaps]
    exact Nat.add_le_add_left (ih field.tag) _

theorem acceptType_maxn (stale : Int) (fields : List (Option Field)) (st : SprotoType)
    (accepted : acceptType stale fields = some st) :
    st.maxn = st.f.length + gaps (-1) st.f := by
  obtain ⟨read, found, same⟩ := Option.map_eq_some_iff.mp accepted
  obtain ⟨fields_eq, count, -⟩ := importFields_fields _ _ _ _ found
  subst same
  have length : fields.length = read.1.length := by rw [fields_eq, List.length_map]
  rw [← length]
  exact count

theorem records_fit (stale : Int) (fields : List (Option Field)) (st : SprotoType)
    (accepted : acceptType stale fields = some st) (ud : EncodeUd) (size : Int)
    (visited later : List Field) (here : st.f = visited ++ later) (state : EncodeState)
    (run : visited.foldlM (encodeStep number struct) (encodeStart st ud size) = .ok state) :
    state.records.length ≤ st.maxn ∧
      sizeofHeader + sizeofField * state.records.length ≤ sizeofHeader + st.maxn * sizeofField := by
  have start : Reserved (-1) 0 (encodeStart st ud size) := le_rfl
  have fits := encodeFields_reserved number struct visited (-1) 0 _ _ start run
  have fewer : gaps (-1) visited ≤ gaps (-1) st.f := by
    rw [here]
    exact gaps_append (-1) visited later
  have length : st.f.length = visited.length + later.length := by rw [here, List.length_append]
  have slots := acceptType_maxn stale fields st accepted
  have within : state.records.length ≤ st.maxn := by omega
  refine ⟨within, ?_⟩
  rw [Nat.mul_comm sizeofField]
  exact Nat.add_le_add_left (Nat.mul_le_mul_right _ within) _

theorem records_fit_skip :
    ∃ state : EncodeState, state.records = [5, 16] ∧ state.records.length ≤ 4 ∧
      sizeofHeader + sizeofField * state.records.length ≤ sizeofHeader + 4 * sizeofField :=
  ⟨_, rfl, records_fit (fun _ => []) (some fun _ _ _ => .error .full) 0
    [some (integerField 0 97), some (integerField 2 98), some (integerField 3 99)] _ rfl
    (newEncodeUd [(.scalar (.string [99]), .scalar (.integer 7))] reservedSlots true) 100
    [integerField 0 97, integerField 2 98, integerField 3 99] [] rfl _ rfl⟩

end Pskynet.Sproto
