import LexProduct.MixedRadix.Bounded

/-!
# Moving forward in place

`next?` and `turnAll` tell the digits of a move only where it arrives. A counter that overwrites its
digits on the way has digits on every outcome: behind a step past the last numeral they are zeros, and
behind a longer move they are whatever the wheels had reached when it ended. Here both moves are written
that way, and compared with the functions that drop these digits:

* `rolled_eq`: a step in place shows the digits of `next?`, or zeros only;
* `turnAll_eq_turned`, `add?_eq_turned`: a move in place carries the same and, where it arrives, shows
  the same.

The equations ask nothing of the wheels, so the two ways also stop with the same faults.
-/

namespace LexProduct.MixedRadix

/-! ### One step -/

/-- The wheels rolled on by one, the last wheel first: whether one of them had a next digit, and what
they all show then. -/
def rolled : List Wheel → Checked (Bool × List Word)
  | [] => .ok (false, [])
  | w :: ws => do
    let (reached, digits) ← rolled ws
    if reached then
      return (true, w.digit :: digits)
    else
      let digit ← Word.checkedAdd w.digit 1
      return if digit < w.radix then (true, digit :: digits) else (false, 0 :: digits)

/-- **A step in place shows the next numeral**, or zeros behind the last one. -/
theorem rolled_eq (ws : List Wheel) :
    rolled ws = (next? ws).map fun reached => reached.elim (false, ws.map fun _ => 0) (true, ·) := by
  induction ws with
  | nil => rfl
  | cons w ws ih =>
    rw [rolled, ih, next?]
    cases next? ws with
    | error fault => rfl
    | ok reached =>
      cases reached with
      | some digits => rfl
      | none =>
        -- the wheels further back show zeros already
        show (Word.checkedAdd w.digit 1 >>= _) = (Word.checkedAdd w.digit 1 >>= _).map _
        cases Word.checkedAdd w.digit 1 with
        | error fault => rfl
        | ok digit =>
          rw [Checked.ok_bind, Checked.ok_bind]
          split <;> rfl

/-! ### A longer move -/

/-- One wheel turned by the carry that has come to it. Without a carry, be it zero or too large for a
word, the wheel stays. -/
def turnedBy (w : Wheel) : Option Word → Checked (Option Word × Word)
  | none => return (none, w.digit)
  | some carry =>
    if carry = 0 then
      return (some 0, w.digit)
    else do
      let (above, step) ← Word.divMod carry w.radix
      let room ← Word.checkedSub w.radix w.digit
      if room ≤ step then
        return (Word.add? above 1, step - room)
      else
        return (some above, ← Word.checkedAdd w.digit step)

/-- The wheels turned by `amount`, the last wheel first: the carry out of the first of them, if it is a
word, and what they all show then. -/
def turned (amount : Word) : List Wheel → Checked (Option Word × List Word)
  | [] => .ok (some amount, [])
  | w :: ws => do
    let (carry, digits) ← turned amount ws
    let (carry, digit) ← turnedBy w carry
    return (carry, digit :: digits)

theorem turn_eq_turnedBy (w : Wheel) (k : Word) :
    turn w k = (turnedBy w (some k)).map fun (carry, digit) => carry.map (·, digit) := by
  unfold turn turnedBy
  dsimp only
  by_cases hk : k = 0
  · rw [if_pos hk, if_pos hk]
    rfl
  · rw [if_neg hk, if_neg hk]
    cases Word.divMod k w.radix with
    | error fault => rfl
    | ok r =>
      obtain ⟨above, step⟩ := r
      rw [Checked.ok_bind, Checked.ok_bind]
      cases Word.checkedSub w.radix w.digit with
      | error fault => rfl
      | ok room =>
        rw [Checked.ok_bind, Checked.ok_bind]
        split
        · rfl
        · cases Word.checkedAdd w.digit step <;> rfl

/-- **A move in place carries what the move carries**, and shows its digits unless a carry is no
word. -/
theorem turnAll_eq_turned (amount : Word) (ws : List Wheel) :
    turnAll amount ws = (turned amount ws).map fun (carry, digits) => carry.map (·, digits) := by
  induction ws with
  | nil => rfl
  | cons w ws ih =>
    rw [turnAll, turned, ih]
    cases turned amount ws with
    | error fault => rfl
    | ok r =>
      obtain ⟨carry, digits⟩ := r
      cases carry with
      | none => rfl -- the move has failed, and the wheels in front only stay
      | some carry =>
        show (turn w carry >>= _) = (turnedBy w (some carry) >>= _).map _
        rw [turn_eq_turnedBy]
        cases turnedBy w (some carry) with
        | error fault => rfl
        | ok r =>
          obtain ⟨above, digit⟩ := r
          cases above <;> rfl

theorem length_turned {amount : Word} {ws : List Wheel} {carry : Option Word} {digits : List Word}
    (h : turned amount ws = .ok (carry, digits)) : digits.length = ws.length := by
  induction ws generalizing carry digits with
  | nil =>
    obtain ⟨-, rfl⟩ := Prod.mk.inj (Except.ok.inj h)
    rfl
  | cons w ws ih =>
    obtain ⟨⟨carry', digits'⟩, hws, h⟩ := Checked.bind_eq_ok_iff.1 h
    obtain ⟨⟨above, digit⟩, -, h⟩ := Checked.bind_eq_ok_iff.1 h
    obtain ⟨-, rfl⟩ := Prod.mk.inj (Except.ok.inj h)
    simp [ih hws]

theorem add?_eq_turned (ds rs : List Word) (amount : Word) :
    add? ds rs amount = (turned amount (wheels ds rs)).map fun (carry, digits) =>
      if carry = some 0 then some (digits ++ ds.drop rs.length) else none := by
  rw [add?, turnAll_eq_turned]
  cases turned amount (wheels ds rs) with
  | error fault => rfl
  | ok r =>
    obtain ⟨carry, digits⟩ := r
    cases carry with
    | none => rfl
    | some carry => simp [Except.map]

end LexProduct.MixedRadix
