import StorageProof.Json.Lexeme

/-!
# Values that are passed over

A member of a record with an unknown key is checked for syntax and dropped. Its arrays and objects may
nest to any depth, so the containers that are still open are kept as a list, innermost first.
-/

namespace StorageProof.Json

inductive Container
  | list
  | object
  deriving DecidableEq, Repr

def Container.close : Container → UInt8
  | .list => 0x5D
  | .object => 0x7D

/-- The fault of bytes that end inside a container. -/
def Container.endFault : Container → SyntaxFault
  | .list => .endInList
  | .object => .endInObject

/-- The fault of an item that is followed by neither a comma nor the end of its container. -/
def Container.separatorFault : Container → SyntaxFault
  | .list => .expectedListCommaOrEnd
  | .object => .expectedObjectCommaOrEnd

/-- The bytes after a word, a number or a string, or at the first item of a container that opens. -/
def skipStart : Bytes → Except SyntaxFault (Option Container × Bytes)
  | [] => .error .endInValue
  | b :: rest =>
    if b = 0x6E then (takeWord ull rest).map (none, ·)
    else if b = 0x74 then (takeWord rue rest).map (none, ·)
    else if b = 0x66 then (takeWord alse rest).map (none, ·)
    else if b = 0x2D then (skipNumber rest).map (none, ·)
    else if isDigit b then (skipNumber (b :: rest)).map (none, ·)
    else if b = 0x22 then (skipString rest).map (none, ·)
    else if b = 0x5B then .ok (some .list, rest)
    else if b = 0x7B then .ok (some .object, rest)
    else .error .expectedValue

theorem length_skipStart {s rest : Bytes} {c : Option Container}
    (h : skipStart s = .ok (c, rest)) : rest.length < s.length := by
  have word {w t : Bytes} (h : (takeWord w t).map (none, ·) = .ok (c, rest)) :
      rest.length ≤ t.length := by
    cases hw : takeWord w t <;> simp [hw, Except.map] at h
    rw [← h.2]; exact length_takeWord_le hw
  have number {t : Bytes} (h : (skipNumber t).map (none, ·) = .ok (c, rest)) :
      rest.length < t.length := by
    cases hn : skipNumber t <;> simp [hn, Except.map] at h
    rw [← h.2]; exact length_skipNumber hn
  cases s with
  | nil => simp [skipStart] at h
  | cons b s =>
    rw [List.length_cons]
    simp only [skipStart] at h
    split at h
    · exact Nat.lt_succ_of_le (word h)
    split at h
    · exact Nat.lt_succ_of_le (word h)
    split at h
    · exact Nat.lt_succ_of_le (word h)
    split at h
    · exact Nat.lt_succ_of_lt (number h)
    split at h
    · exact number h
    split at h
    · cases hs : skipString s <;> simp [hs, Except.map] at h
      rw [← h.2]; exact Nat.lt_succ_of_lt (length_skipString hs)
    split at h
    · simp only [Except.ok.injEq, Prod.mk.injEq] at h; simp [← h.2]
    split at h
    · simp only [Except.ok.injEq, Prod.mk.injEq] at h; simp [← h.2]
    · simp at h

/-- The bytes after the key of a member that is skipped, and after its colon. -/
def skipKey (s : Bytes) : Except SyntaxFault Bytes :=
  match skipSpace s with
  | [] => .error .endInObject
  | b :: rest =>
    if b = 0x22 then
      match skipString rest with
      | .error e => .error e
      | .ok rest =>
        match skipSpace rest with
        | [] => .error .endInObject
        | c :: rest => if c = 0x3A then .ok rest else .error .expectedColon
    else .error .keyMustBeText

theorem length_skipKey {s rest : Bytes} (h : skipKey s = .ok rest) : rest.length < s.length := by
  unfold skipKey at h
  have hs := length_skipSpace_le s
  split at h
  · simp at h
  · next b r hb =>
    rw [hb, List.length_cons] at hs
    split at h
    · split at h
      · simp at h
      · next r' hr =>
        have := length_skipString hr
        have ht := length_skipSpace_le r'
        split at h
        · simp at h
        · next c r'' hc =>
          rw [hc, List.length_cons] at ht
          split at h
          · simp only [Except.ok.injEq] at h
            rw [← h]; omega
          · simp at h
    · simp at h

/-- What is due while a value is skipped: a value, the first item of the innermost container or its end,
or what follows an item. -/
inductive Due
  | value
  | firstItem
  | nextItem
  deriving DecidableEq, Repr

/-- The bytes at the value of an item of the innermost container. -/
def skipToItem (c : Container) (s : Bytes) : Except SyntaxFault Bytes :=
  match c with
  | .list => .ok s
  | .object => skipKey s

theorem length_skipToItem_le {c : Container} {s rest : Bytes} (h : skipToItem c s = .ok rest) :
    rest.length ≤ s.length := by
  cases c with
  | list => simp only [skipToItem, Except.ok.injEq] at h; simp [h]
  | object => exact Nat.le_of_lt (length_skipKey h)

/-- The bytes after a value, given what is due and the containers that are open. -/
def skipOpen (due : Due) (containers : List Container) (s : Bytes) : Except SyntaxFault Bytes :=
  match due, containers with
  | .value, containers =>
    match _h : skipStart (skipSpace s) with
    | .error e => .error e
    | .ok (some c, rest) => skipOpen .firstItem (c :: containers) rest
    | .ok (none, rest) => skipOpen .nextItem containers rest
  | _, [] => .ok s
  | .firstItem, c :: outer =>
    match _h : skipSpace s with
    | [] => .error c.endFault
    | b :: rest =>
      if b = c.close then skipOpen .nextItem outer rest
      else match _k : skipToItem c (b :: rest) with
        | .error e => .error e
        | .ok rest => skipOpen .value (c :: outer) rest
  | .nextItem, c :: outer =>
    match _h : skipSpace s with
    | [] => .error c.endFault
    | b :: rest =>
      if b = 0x2C then
        match _k : skipToItem c rest with
        | .error e => .error e
        | .ok rest => skipOpen .value (c :: outer) rest
      else if b = c.close then skipOpen .nextItem outer rest
      else .error c.separatorFault
termination_by (s.length, if due = .value then 0 else 1)
decreasing_by
  · have := length_skipStart _h
    have := length_skipSpace_le s
    apply Prod.Lex.left; omega
  · have := length_skipStart _h
    have := length_skipSpace_le s
    apply Prod.Lex.left; omega
  all_goals
    have hs := length_skipSpace_le s
    rw [_h, List.length_cons] at hs
  · apply Prod.Lex.left; omega
  · have hk := length_skipToItem_le _k
    rw [List.length_cons] at hk
    rcases Nat.lt_or_eq_of_le (Nat.le_trans hk hs) with h | h
    · exact Prod.Lex.left _ _ h
    · rw [h]; apply Prod.Lex.right; simp
  · have hk := length_skipToItem_le _k
    apply Prod.Lex.left; omega
  · apply Prod.Lex.left; omega

def skipValue (s : Bytes) : Except SyntaxFault Bytes := skipOpen .value [] s

theorem length_skipOpen_le {due : Due} {containers : List Container} {s rest : Bytes}
    (h : skipOpen due containers s = .ok rest) : rest.length ≤ s.length := by
  fun_induction skipOpen due containers s with
  | case1 => simp at h
  | case2 s containers c r hs ih =>
    have := length_skipStart hs
    have := length_skipSpace_le s
    have := ih h
    omega
  | case3 s containers r hs ih =>
    have := length_skipStart hs
    have := length_skipSpace_le s
    have := ih h
    omega
  | case4 => simp only [Except.ok.injEq] at h; simp [h]
  | case5 => simp at h
  | case6 s c outer r hs ih =>
    have hl := length_skipSpace_le s
    rw [hs, List.length_cons] at hl
    have := ih h
    omega
  | case7 => simp at h
  | case8 s c outer b r hs _ r' hk ih =>
    have hl := length_skipSpace_le s
    rw [hs] at hl
    have := length_skipToItem_le hk
    have := ih h
    omega
  | case9 => simp at h
  | case10 => simp at h
  | case11 s c outer r r' hk hs ih =>
    have hl := length_skipSpace_le s
    rw [hs, List.length_cons] at hl
    have := length_skipToItem_le hk
    have := ih h
    omega
  | case12 s c outer r hs _ ih =>
    have hl := length_skipSpace_le s
    rw [hs, List.length_cons] at hl
    have := ih h
    omega
  | case13 => simp at h

end StorageProof.Json
