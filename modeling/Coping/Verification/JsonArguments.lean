import Coping.Library.JsonObject
import Coping.Ping.JsonArguments
import Coping.Verification.JsonBuffer

/-!
# Two strings and no terminator

No null pointer is passed behind the two strings of an error object. So the array has as many
strings more as there are pointers to strings behind the arguments, and it ends at a null pointer
that nobody has passed, or the program does.
-/

namespace Coping.JsonArguments

open Json CFormat

theorem ok_of_bind {ε α β : Type} {x : Except ε α} {f : α → Except ε β} {r : β}
    (h : x >>= f = .ok r) : ∃ a, x = .ok a ∧ f a = .ok r := by
  cases x with
  | error e => cases h
  | ok a => exact ⟨a, rfl, h⟩

section Loop

variable {ap : VaList} {fuel count : Nat} {b : PingJsonBuffer}

theorem arg_leftover (i : Nat) : ap.arg (ap.passed.length + i) = ap.leftover i := by
  rw [VaList.arg, List.getElem?_eq_none (Nat.le_add_right _ _), Nat.add_sub_cancel_left]
  rfl

theorem loop_string {val : CString} (h : ap.arg count = .string val) :
    jsonKvArrayLoop ap (fuel + 1) count b =
      (b.appendAll ((if count > 0 then jsonContinue else []) ++
        [.atEnd (quoted val.bytes)])).mapError .json >>= jsonKvArrayLoop ap fuel (count + 1) := by
  rw [jsonKvArrayLoop, h]

/-- The loop ends behind a null pointer. -/
theorem loop_null {r : ArrayEnd} (h : jsonKvArrayLoop ap fuel count b = .ok (some r)) :
    count < r.consumed ∧ ap.arg (r.consumed - 1) = .null := by
  induction fuel generalizing count b with
  | zero => cases h
  | succ fuel ih =>
      rw [jsonKvArrayLoop] at h
      split at h
      next hnull =>
        cases h
        exact ⟨Nat.lt_succ_self count, hnull⟩
      · cases h
      next val hval =>
        obtain ⟨b', -, hrest⟩ := ok_of_bind h
        obtain ⟨hlt, hnull⟩ := ih hrest
        exact ⟨by omega, hnull⟩

/-- The loop over strings with a null pointer behind them. -/
theorem loop_strings {vals : List CString}
    (strings : ∀ i val, vals[i]? = some val → ap.arg (count + i) = .string val)
    (ends : ap.arg (count + vals.length) = .null) (fuelled : vals.length < fuel) :
    jsonKvArrayLoop ap fuel count b =
      ((b.appendAll (jsonItems count vals)).mapError .json).map fun b =>
        some { consumed := count + vals.length + 1, buffer := b } := by
  induction vals generalizing fuel count b with
  | nil =>
      obtain ⟨fuel, rfl⟩ := Nat.exists_eq_succ_of_ne_zero (Nat.ne_of_gt fuelled)
      rw [jsonKvArrayLoop, show ap.arg count = .null from ends]
      rfl
  | cons val vals ih =>
      obtain ⟨fuel, rfl⟩ := Nat.exists_eq_succ_of_ne_zero (Nat.ne_of_gt (Nat.zero_lt_of_lt fuelled))
      rw [List.length_cons] at ends fuelled
      have hnext : ∀ i v, vals[i]? = some v → ap.arg (count + 1 + i) = .string v := by
        intro i v hv
        rw [Nat.add_assoc, Nat.add_comm 1 i]
        exact strings (i + 1) v hv
      have hfirst : ap.arg count = .string val := strings 0 val rfl
      rw [Nat.succ_eq_add_one, loop_string hfirst, jsonItems,
        JsonBuffer.appendAll_append b (_ ++ _) (jsonItems (count + 1) vals)]
      cases b.appendAll ((if count > 0 then jsonContinue else []) ++
          [.atEnd (quoted val.bytes)]) with
      | error stop => rfl
      | ok b' =>
          have hrest := @ih fuel (count + 1) b' hnext
            (by rw [Nat.add_assoc, Nat.add_comm 1]; exact ends) (by omega)
          rw [Nat.add_assoc count 1, Nat.add_comm 1] at hrest
          exact hrest

end Loop

/-- The object is right: no more and no less is taken than was passed, and the array is the
message and the text of the error. -/
def ErrorRight (strerror : Int → CString) (leftover : Nat → Pointer) (b : PingJsonBuffer)
    (errnum : Int) (errmsg : CString) : Prop :=
  ∃ fuel object,
    constructJsonErrorArgs strerror leftover fuel b errnum errmsg = .ok (some object) ∧
      object.consumed = (errorArguments strerror leftover errnum errmsg).passed.length ∧
      parse object.printed = some (.object
        [(CFormat.ascii "error",
          .array [.string errmsg.bytes, .string (strerror errnum).bytes])])

/-- What is not passed is taken, in every call that comes to an end. -/
theorem consumed_of_ends {strerror : Int → CString} {leftover : Nat → Pointer} {fuel : Nat}
    {b : PingJsonBuffer} {errnum : Int} {errmsg : CString} {object : ErrorObject}
    (positive : 0 < errnum)
    (ends : constructJsonErrorArgs strerror leftover fuel b errnum errmsg = .ok (some object)) :
    2 < object.consumed ∧ leftover (object.consumed - 3) = .null := by
  rw [constructJsonErrorArgs, if_neg (by omega), if_neg (by omega), constructJsonErrorArray] at ends
  obtain ⟨opened, -, hloop⟩ := ok_of_bind ends
  obtain ⟨array, harray, hrest⟩ := ok_of_bind hloop
  cases array with
  | none => cases hrest
  | some array =>
      obtain ⟨closed, -, hprinted⟩ := ok_of_bind hrest
      cases hprinted
      obtain ⟨hpositive, hnull⟩ := loop_null harray
      have hbehind : 2 < array.consumed := by
        by_contra hle
        have hstring : array.consumed - 1 = 0 ∨ array.consumed - 1 = 1 := by omega
        rcases hstring with h | h <;>
        · rw [h] at hnull
          cases hnull
      have hleftover := @arg_leftover (errorArguments strerror leftover errnum errmsg)
        (array.consumed - 3)
      have hindex : 2 + (array.consumed - 3) = array.consumed - 1 := by omega
      rw [show (errorArguments strerror leftover errnum errmsg).passed.length = 2 from rfl, hindex,
        hnull] at hleftover
      exact ⟨hbehind, hleftover.symm⟩

/-- With strings behind the arguments, and a null pointer behind them, the object is the one of
`constructJsonError`. -/
theorem constructJsonErrorArgs_eq {strerror : Int → CString} {leftover : Nat → Pointer}
    {behind : List CString} (b : PingJsonBuffer) {errnum : Int} (errmsg : CString)
    (positive : 0 < errnum)
    (strings : ∀ i val, behind[i]? = some val → leftover i = .string val)
    (ends : leftover behind.length = .null) :
    constructJsonErrorArgs strerror leftover (behind.length + 3) b errnum errmsg =
      ((constructJsonError true strerror behind b errnum (some errmsg)).mapError .json).map
        fun out => some { consumed := behind.length + 3, printed := out.1, buffer := out.2 } := by
  have hpassed : ∀ i val, (errmsg :: strerror errnum :: behind)[i]? = some val →
      (errorArguments strerror leftover errnum errmsg).arg (0 + i) = .string val := by
    intro i val hval
    rw [Nat.zero_add]
    match i with
    | 0 =>
        cases hval
        rfl
    | 1 =>
        cases hval
        rfl
    | i + 2 =>
        rw [Nat.add_comm]
        exact (@arg_leftover (errorArguments strerror leftover errnum errmsg) i).trans
          (strings i val hval)
  have hends : (errorArguments strerror leftover errnum errmsg).arg
      (0 + (errmsg :: strerror errnum :: behind).length) = .null := by
    have hlength : 0 + (errmsg :: strerror errnum :: behind).length = 2 + behind.length := by
      rw [List.length_cons, List.length_cons]
      omega
    rw [hlength]
    exact (@arg_leftover (errorArguments strerror leftover errnum errmsg) _).trans ends
  have hloop : ∀ b', jsonKvArrayLoop (errorArguments strerror leftover errnum errmsg)
      (behind.length + 3) 0 b' =
        ((b'.appendAll (jsonItems 0 (errmsg :: strerror errnum :: behind))).mapError .json).map
          fun b => some { consumed := behind.length + 3, buffer := b } := by
    intro b'
    have hstrings := @loop_strings _ (behind.length + 3) 0 b' _ hpassed hends (Nat.lt_succ_self _)
    rwa [Nat.zero_add] at hstrings
  have hconstruct : constructJson true b (.arr .error [errmsg, strerror errnum] behind) =
      b.appendAll (b.opening ++ [.atEnd (keyed .error [openBracket])]) >>= fun b =>
        b.appendAll (jsonItems 0 (errmsg :: strerror errnum :: behind)) >>= fun b =>
          b.appendAll jsonEndArray := by
    rw [constructJson, if_pos rfl, constructJsonAppends, JsonField.appends, jsonKvArray,
      ← List.append_assoc, ← List.append_assoc, JsonBuffer.appendAll_append,
      JsonBuffer.appendAll_append, bind_assoc]
    rfl
  rw [constructJsonErrorArgs, if_neg (by omega), if_neg (by omega), constructJsonErrorArray,
    constructJsonError, if_neg (by omega)]
  dsimp only
  rw [if_neg (by omega), hconstruct]
  cases b.appendAll (b.opening ++ [.atEnd (keyed .error [openBracket])]) with
  | error stop => rfl
  | ok opened =>
      have hopened := hloop opened
      dsimp only [Except.mapError, bind, Except.bind] at hopened ⊢
      rw [hopened]
      cases opened.appendAll (jsonItems 0 (errmsg :: strerror errnum :: behind)) with
      | error stop => rfl
      | ok array =>
          dsimp only [Except.map]
          cases array.appendAll jsonEndArray with
          | error stop => rfl
          | ok closed => rfl

theorem error_never_right (strerror : Int → CString) (leftover : Nat → Pointer)
    (b : PingJsonBuffer) (errnum : Int) (errmsg : CString) (positive : 0 < errnum) :
    ¬ErrorRight strerror leftover b errnum errmsg := by
  rintro ⟨fuel, object, hends, hconsumed, -⟩
  exact absurd hconsumed (Nat.ne_of_gt (consumed_of_ends positive hends).1)

/-- `EMSGSIZE`, when `sendmsg` fails and a null pointer happens to be behind the two strings. -/
theorem error_never_right_message : 0 < (90 : Int) ∧
    ¬ErrorRight (fun _ => ⟨ascii "Message too long", by decide⟩) (fun _ => .null) {} 90
      ⟨ascii "sendmsg", by decide⟩ :=
  ⟨by decide, error_never_right _ _ _ 90 _ (by decide)⟩

/-- The same when what is behind them is no string. No object is printed at all. -/
theorem error_unterminated :
    ¬ErrorRight (fun _ => ⟨ascii "Message too long", by decide⟩) (fun _ => .wild) {} 90
      ⟨ascii "sendmsg", by decide⟩ := by
  rintro ⟨fuel, object, hends, -, -⟩
  cases (consumed_of_ends (by decide) hends).2

end Coping.JsonArguments
