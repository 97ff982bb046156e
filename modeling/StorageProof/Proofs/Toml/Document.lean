import Mathlib.Data.List.Nodup
import StorageProof.Proofs.Lookup
import StorageProof.Toml.Document

/-!
# No key twice

In whatever is read as a document no key stands twice, neither at its top nor in a table within, and
every integer has sixty-four bits. This is kept from line to line: what adds to a table adds a key
that the table does not have, or puts another draft under one that it has, however long the path to
it is and whether headers, dotted keys or braces have made it. A table that a header has opened is
filled apart from the others and put back when it is closed: its place must be free until then.
-/

namespace StorageProof.Toml

/-- A value of which no table has a key twice and no integer is too large. -/
inductive Value.Proper : Value → Prop
  | text (s : String) : Proper (.text s)
  | integer {n : Int} (range : minInteger ≤ n ∧ n ≤ maxInteger) : Proper (.integer n)
  | float (bits : UInt64) : Proper (.float bits)
  | boolean (b : Bool) : Proper (.boolean b)
  | moment : Proper .moment
  | array {items : List Value} (values : ∀ v ∈ items, v.Proper) : Proper (.array items)
  | table {members : List (String × Value)} (keys : (members.map Prod.fst).Nodup)
      (values : ∀ m ∈ members, m.2.Proper) : Proper (.table members)

/-- A draft of which no table has a key twice and no integer is too large. -/
inductive Draft.Proper : Draft → Prop
  | value {v : Value} (h : v.Proper) : Proper (.value v)
  | table {origin : Origin} {members : Members} (keys : (members.map Prod.fst).Nodup)
      (drafts : ∀ m ∈ members, m.2.Proper) : Proper (.table origin members)
  | tables {rows : List Members} (keys : ∀ row ∈ rows, (row.map Prod.fst).Nodup)
      (drafts : ∀ row ∈ rows, ∀ m ∈ row, m.2.Proper) : Proper (.tables rows)

/-- Members of which no key stands twice, with proper drafts. -/
structure Members.Proper (ms : Members) : Prop where
  keys : (ms.map Prod.fst).Nodup
  drafts : ∀ m ∈ ms, m.2.Proper

/-! ## Finished values -/

namespace Draft

theorem valuesOf_eq_map (ms : Members) : valuesOf ms = ms.map fun m => (m.1, m.2.toValue) := by
  induction ms with
  | nil => rfl
  | cons m ms ih => rw [valuesOf, ih, List.map_cons]

theorem tablesOf_eq_map (rows : List Members) :
    tablesOf rows = rows.map fun row => .table (valuesOf row) := by
  induction rows with
  | nil => rfl
  | cons row rows ih => rw [tablesOf, ih, List.map_cons]

theorem map_fst_valuesOf (ms : Members) : (valuesOf ms).map Prod.fst = ms.map Prod.fst := by
  rw [valuesOf_eq_map, List.map_map]
  rfl

theorem proper_valuesOf {ms : Members} (keys : (ms.map Prod.fst).Nodup)
    (values : ∀ m ∈ ms, m.2.toValue.Proper) : (Value.table (valuesOf ms)).Proper := by
  refine .table ?_ ?_
  · rwa [map_fst_valuesOf]
  · rw [valuesOf_eq_map, List.forall_mem_map]
    exact values

theorem Proper.toValue {d : Draft} (h : d.Proper) : d.toValue.Proper := by
  induction h with
  | value h => exact h
  | table keys _ ih => exact proper_valuesOf keys ih
  | tables keys _ ih =>
    refine .array ?_
    rw [tablesOf_eq_map, List.forall_mem_map]
    exact fun row hrow => proper_valuesOf (keys row hrow) (ih row hrow)

end Draft

/-! ## Members -/

namespace Members

variable {ms : Members} {key : String} {d : Draft}

theorem Proper.nil : Proper [] := ⟨List.nodup_nil, by simp⟩

/-- The finished members. -/
theorem Proper.valuesOf (h : ms.Proper) : (Value.table (Draft.valuesOf ms)).Proper :=
  Draft.proper_valuesOf h.keys fun m hm => (h.drafts m hm).toValue

theorem Proper.of_lookup (h : ms.Proper) (hd : ms.lookup key = some d) : d.Proper :=
  h.drafts (key, d) (mem_of_lookup_eq_some hd)

theorem Proper.append (h : ms.Proper) (hkey : ms.lookup key = none) (hd : d.Proper) :
    (ms ++ [(key, d)]).Proper where
  keys := by
    have hfresh := lookup_eq_none_iff_not_mem.mp hkey
    rw [List.map_append, List.map_singleton, List.nodup_append]
    refine ⟨h.keys, List.nodup_singleton _, ?_⟩
    intro a ha b hb
    rw [List.mem_singleton] at hb
    rintro rfl
    rw [hb] at ha
    exact hfresh ha
  drafts := by
    rw [List.forall_mem_append, List.forall_mem_singleton]
    exact ⟨h.drafts, hd⟩

theorem Proper.replace (h : ms.Proper) (hd : d.Proper) : (ms.replace key d).Proper where
  keys := by
    have hkeys : (ms.replace key d).map Prod.fst = ms.map Prod.fst := by
      rw [Members.replace, List.map_map]
      refine List.map_congr_left fun m _ => ?_
      rw [Function.comp_apply]
      split
      · next heq => exact heq.symm
      · rfl
    rw [hkeys]
    exact h.keys
  drafts := by
    rw [Members.replace, List.forall_mem_map]
    intro m hm
    split
    · exact hd
    · exact h.drafts m hm

theorem Proper.without (h : ms.Proper) (key : String) : (ms.without key).Proper where
  keys := h.keys.sublist (List.Sublist.map Prod.fst List.filter_sublist)
  drafts := fun m hm => h.drafts m (List.mem_of_mem_filter hm)

theorem lookup_append (hkey : ms.lookup key = none) (d : Draft) :
    (ms ++ [(key, d)]).lookup key = some d := by
  rw [List.lookup_append, hkey, Option.none_or]
  exact List.lookup_cons_self

theorem lookup_replace {old : Draft} (hkey : ms.lookup key = some old) (d : Draft) :
    (ms.replace key d).lookup key = some d := by
  induction ms with
  | nil => cases hkey
  | cons m ms ih =>
    rw [Members.replace, List.map_cons]
    by_cases heq : m.1 = key
    · rw [if_pos heq]
      exact List.lookup_cons_self
    · have hne : (key == m.1) = false := beq_eq_false_iff_ne.mpr (Ne.symm heq)
      rw [List.lookup_cons, hne] at hkey
      rw [if_neg heq, List.lookup_cons, hne]
      exact ih hkey

theorem lookup_without (ms : Members) (key : String) : (ms.without key).lookup key = none := by
  rw [lookup_eq_none_iff_not_mem, List.mem_map]
  rintro ⟨m, hm, heq⟩
  have hne := List.of_mem_filter hm
  simp [heq] at hne

/-- What the members have that a path leads to. -/
def AtEnd (P : Members → Prop) : List String → Members → Prop
  | [], ms => P ms
  | key :: path, ms =>
    match ms.lookup key with
    | some (.table _ inner) => AtEnd P path inner
    | some (.tables rows) => ∀ row ∈ rows.getLast?, AtEnd P path row
    | _ => P []

theorem atEnd_nil {P : Members → Prop} (h : P []) (path : List String) : AtEnd P path [] := by
  cases path with
  | nil => exact h
  | cons key path => exact h

theorem atEnd_true (path : List String) (ms : Members) : AtEnd (fun _ => True) path ms := by
  induction path generalizing ms with
  | nil => trivial
  | cons key path ih =>
    rw [AtEnd]
    split
    · exact ih _
    · exact fun row _ => ih row
    · trivial

section ChangeAt

variable {α : Type} {dotted : Bool} {f : Origin → Members → Option (Members × α)}
  {path : List String} {origin : Origin} {ms' : Members} {a : α}

/-- The same path leads to what a change has left at its end. -/
theorem atEnd_of_changeAt {P : Members → Prop}
    (hf : ∀ {origin ms ms' a}, f origin ms = some (ms', a) → P ms')
    (hchange : changeAt dotted f path origin ms = some (ms', a)) : AtEnd P path ms' := by
  induction path generalizing origin ms ms' with
  | nil => exact hf hchange
  | cons key path ih =>
    rw [Members.changeAt] at hchange
    split at hchange
    · next hkey =>
      obtain ⟨⟨inner, b⟩, hinner, hchange⟩ := Option.bind_eq_some_iff.mp hchange
      cases hchange
      rw [AtEnd, lookup_append hkey]
      exact ih hinner
    · cases hchange
    · next origin' inner hkey =>
      split at hchange
      · cases hchange
      · obtain ⟨⟨inner', b⟩, hinner, hchange⟩ := Option.bind_eq_some_iff.mp hchange
        cases hchange
        rw [AtEnd, lookup_replace hkey]
        exact ih hinner
    · next rows hkey =>
      split at hchange
      · cases hchange
      · next row hrow =>
        obtain ⟨⟨row', b⟩, hinner, hchange⟩ := Option.bind_eq_some_iff.mp hchange
        cases hchange
        rw [AtEnd, lookup_replace hkey]
        simp only [List.getLast?_append, List.getLast?_singleton, Option.some_or, Option.mem_def,
          Option.some.injEq, forall_eq']
        exact ih hinner

/-- What a change keeps at the end of a path, the change along the path keeps. -/
theorem Proper.changeAt {P : Members → Prop} {Q : α → Prop}
    (hf : ∀ {origin ms ms' a}, Proper ms → P ms → f origin ms = some (ms', a) → Proper ms' ∧ Q a)
    (h : ms.Proper) (hend : AtEnd P path ms)
    (hchange : changeAt dotted f path origin ms = some (ms', a)) : ms'.Proper ∧ Q a := by
  induction path generalizing origin ms ms' with
  | nil => exact hf h hend hchange
  | cons key path ih =>
    rw [Members.changeAt] at hchange
    rw [AtEnd] at hend
    split at hchange
    · next hkey =>
      obtain ⟨⟨inner, b⟩, hinner, hchange⟩ := Option.bind_eq_some_iff.mp hchange
      cases hchange
      simp only [hkey] at hend
      obtain ⟨hproper, ha⟩ := ih .nil (atEnd_nil hend path) hinner
      exact ⟨h.append hkey (.table hproper.keys hproper.drafts), ha⟩
    · cases hchange
    · next origin' inner hkey =>
      simp only [hkey] at hend
      split at hchange
      · cases hchange
      · obtain ⟨⟨inner', b⟩, hinner, hchange⟩ := Option.bind_eq_some_iff.mp hchange
        cases hchange
        cases h.of_lookup hkey with
        | table keys drafts =>
          obtain ⟨hproper, ha⟩ := ih ⟨keys, drafts⟩ hend hinner
          exact ⟨h.replace (.table hproper.keys hproper.drafts), ha⟩
    · next rows hkey =>
      simp only [hkey] at hend
      split at hchange
      · cases hchange
      · next row hrow =>
        obtain ⟨⟨row', b⟩, hinner, hchange⟩ := Option.bind_eq_some_iff.mp hchange
        cases hchange
        cases h.of_lookup hkey with
        | tables keys drafts =>
          have hmem := List.mem_of_getLast? hrow
          obtain ⟨hproper, ha⟩ := ih ⟨keys row hmem, drafts row hmem⟩ (hend row hrow) hinner
          refine ⟨h.replace (.tables ?_ ?_), ha⟩
          · rw [List.forall_mem_append, List.forall_mem_singleton]
            exact ⟨fun r hr => keys r (List.dropLast_subset rows hr), hproper.keys⟩
          · rw [List.forall_mem_append, List.forall_mem_singleton]
            exact ⟨fun r hr => drafts r (List.dropLast_subset rows hr), hproper.drafts⟩

end ChangeAt

theorem Proper.insert {path : List String} {v : Value} {ms' : Members} (h : ms.Proper)
    (hv : v.Proper) (hinsert : ms.insert path key v = some ms') : ms'.Proper := by
  obtain ⟨⟨changed, ⟨⟩⟩, hchange, rfl⟩ := Option.map_eq_some_iff.mp hinsert
  refine (h.changeAt (Q := fun _ => True) ?_ (atEnd_true path ms) hchange).1
  intro origin inner inner' a hinner _ hadd
  split at hadd
  · cases hadd
  · next hfree =>
    cases hadd
    have hnone : inner.lookup key = none := by
      rw [← Option.not_isSome_iff_eq_none]
      exact fun hsome => hfree (.inr hsome)
    exact ⟨hinner.append hnone (.value hv), trivial⟩

end Members

/-! ## Outlines -/

/-- An outline whose tables are proper, where nothing that is closed has the place of the current
table. -/
structure Outline.Proper (o : Outline) : Prop where
  closed : o.closed.Proper
  current : o.current.Proper
  place : o.path = [] ∨ o.isRow = true ∨
    Members.AtEnd (fun ms => ms.lookup (lastKey o.path) = none) (parentPath o.path) o.closed

namespace Outline

variable {o o' : Outline} {path : List String}

theorem Proper.empty : Proper {} := ⟨.nil, .nil, .inl rfl⟩

/-- A table is closed where there is none, and a row after those that are there. -/
theorem Proper.close {ms : Members} (h : o.Proper) (hclose : o.close = some ms) : ms.Proper := by
  rw [Outline.close] at hclose
  split at hclose
  · cases hclose
    exact h.current
  · next hpath =>
    obtain ⟨⟨changed, ⟨⟩⟩, hchange, rfl⟩ := Option.map_eq_some_iff.mp hclose
    cases hrow : o.isRow with
    | true =>
      simp only [hrow, if_true] at hchange
      refine (h.closed.changeAt (Q := fun _ => True) ?_ (Members.atEnd_true _ _) hchange).1
      intro origin inner inner' a hinner _ hput
      split at hput
      · next hkey =>
        cases hput
        refine ⟨hinner.append hkey (.tables ?_ ?_), trivial⟩
        · rw [List.forall_mem_singleton]
          exact h.current.keys
        · rw [List.forall_mem_singleton]
          exact h.current.drafts
      · next rows hkey =>
        cases hput
        cases hinner.of_lookup hkey with
        | tables keys drafts =>
          refine ⟨hinner.replace (.tables ?_ ?_), trivial⟩
          · rw [List.forall_mem_append, List.forall_mem_singleton]
            exact ⟨keys, h.current.keys⟩
          · rw [List.forall_mem_append, List.forall_mem_singleton]
            exact ⟨drafts, h.current.drafts⟩
      · cases hput
    | false =>
      simp only [hrow] at hchange
      have hplace := h.place.resolve_left fun hnil => hpath (by rw [hnil]; rfl)
      rw [hrow] at hplace
      have hend := hplace.resolve_left (by decide)
      refine (h.closed.changeAt (Q := fun _ => True) ?_ hend hchange).1
      intro origin inner inner' a hinner hkey hput
      cases hput
      exact ⟨hinner.append hkey (.table h.current.keys h.current.drafts), trivial⟩

theorem Proper.openTable (h : o.Proper) (hopen : o.openTable path = some o') : o'.Proper := by
  obtain ⟨ms, hclose, hopen⟩ := Option.bind_eq_some_iff.mp hopen
  obtain ⟨⟨closed, current⟩, hchange, hopen⟩ := Option.bind_eq_some_iff.mp hopen
  cases hopen
  have hfound := (h.close hclose).changeAt (Q := Members.Proper) (fun hinner _ hput => ?_)
    (Members.atEnd_true _ _) hchange
  · refine ⟨hfound.1, hfound.2, .inr (.inr (Members.atEnd_of_changeAt ?_ hchange))⟩
    intro origin inner inner' a hput
    split at hput
    · next hkey =>
      cases hput
      exact hkey
    · cases hput
      exact Members.lookup_without _ _
    · cases hput
  · split at hput
    · cases hput
      exact ⟨hinner, .nil⟩
    · next hkey =>
      cases hput
      cases hinner.of_lookup hkey with
      | table keys drafts => exact ⟨hinner.without _, ⟨keys, drafts⟩⟩
    · cases hput

theorem Proper.openRow (h : o.Proper) (hopen : o.openRow path = some o') : o'.Proper := by
  obtain ⟨ms, hclose, hopen⟩ := Option.bind_eq_some_iff.mp hopen
  obtain ⟨⟨closed, ⟨⟩⟩, hchange, hopen⟩ := Option.bind_eq_some_iff.mp hopen
  cases hopen
  refine ⟨?_, .nil, .inr (.inl rfl)⟩
  refine ((h.close hclose).changeAt (Q := fun _ => True) ?_ (Members.atEnd_true _ _) hchange).1
  intro origin inner inner' a hinner _ hput
  split at hput
  · next hkey =>
    cases hput
    exact ⟨hinner.append hkey (.tables (by simp) (by simp)), trivial⟩
  · cases hput
    exact ⟨hinner, trivial⟩
  · cases hput

theorem Proper.insert {key : List String} {v : Value} (h : o.Proper) (hv : v.Proper)
    (hinsert : o.insert key v = some o') : o'.Proper := by
  obtain ⟨current, hcurrent, rfl⟩ := Option.map_eq_some_iff.mp hinsert
  exact ⟨h.closed, h.current.insert hv hcurrent, h.place⟩

end Outline

/-! ## Values as they are read -/

/-- What is taken from the front of a text, wherever there is something, has a property. -/
def Yields {α : Type} (take : Take α) (P : α → Prop) : Prop :=
  ∀ {s a rest}, take s = some (a, rest) → P a

theorem proper_integer? {n : Int} {v : Value} (h : integer? n = some v) : v.Proper := by
  rw [integer?] at h
  split at h
  · next range =>
    cases h
    exact .integer range
  · cases h

theorem proper_float? {negative : Bool} {digits : List Char} {power : Int} {v : Value}
    (h : float? negative digits power = some v) : v.Proper := by
  simp only [float?] at h
  split at h
  · cases h
  · cases h
    exact .float _

theorem yields_takePlainNumber (negative : Bool) :
    Yields (takePlainNumber negative) Value.Proper := by
  intro s v rest h
  obtain ⟨⟨whole, afterWhole⟩, -, h⟩ := Option.bind_eq_some_iff.mp h
  obtain ⟨⟨fraction, afterFraction⟩, -, h⟩ := Option.bind_eq_some_iff.mp h
  obtain ⟨⟨power, afterPower⟩, -, h⟩ := Option.bind_eq_some_iff.mp h
  dsimp only at h
  split at h
  · obtain ⟨w, hw, hv⟩ := Option.map_eq_some_iff.mp h
    cases hv
    exact proper_integer? hw
  · obtain ⟨w, hw, hv⟩ := Option.map_eq_some_iff.mp h
    cases hv
    exact proper_float? hw

theorem yields_takeBased (base : Nat) (isDigit : Char → Bool) :
    Yields (takeBased base isDigit) Value.Proper := by
  intro s v rest h
  obtain ⟨⟨digits, after⟩, -, h⟩ := Option.bind_eq_some_iff.mp h
  obtain ⟨w, hw, hv⟩ := Option.map_eq_some_iff.mp h
  cases hv
  exact proper_integer? hw

theorem yields_takeNumber : Yields takeNumber Value.Proper := by
  intro s v rest h
  unfold takeNumber at h
  split at h
  · exact yields_takeBased _ _ h
  · exact yields_takeBased _ _ h
  · exact yields_takeBased _ _ h
  · dsimp only at h
    split at h
    · cases h
      exact .float _
    · cases h
      exact .float _
    · exact yields_takePlainNumber _ h

theorem yields_takeFlat : Yields takeFlat Value.Proper := by
  intro s v rest h
  unfold takeFlat at h
  split at h
  · obtain ⟨⟨text, after⟩, -, hv⟩ := Option.map_eq_some_iff.mp h
    cases hv
    exact .text text
  · obtain ⟨⟨text, after⟩, -, hv⟩ := Option.map_eq_some_iff.mp h
    cases hv
    exact .text text
  · cases h
    exact .boolean true
  · cases h
    exact .boolean false
  · split at h
    · cases h
      exact .moment
    · exact yields_takeNumber h

section Nested

variable {take : Take Value}

theorem yields_takeItemsUpTo (ht : Yields take Value.Proper) (fuel : Nat) :
    Yields (takeItemsUpTo take fuel) fun vs => ∀ v ∈ vs, v.Proper := by
  induction fuel with
  | zero => exact fun h => nomatch h
  | succ fuel ih =>
    intro s vs rest h
    unfold takeItemsUpTo at h
    split at h
    · cases h
      simp
    · obtain ⟨⟨v, after⟩, hv, h⟩ := Option.bind_eq_some_iff.mp h
      dsimp only at h
      split at h
      · obtain ⟨⟨ws, last⟩, hws, h⟩ := Option.map_eq_some_iff.mp h
        cases h
        exact List.forall_mem_cons.mpr ⟨ht hv, ih hws⟩
      · cases h
        exact List.forall_mem_singleton.mpr (ht hv)
      · cases h

theorem yields_takeAssignment (ht : Yields take Value.Proper) :
    Yields (takeAssignment take) fun p => p.2.Proper := by
  intro s p rest h
  obtain ⟨⟨key, afterKey⟩, -, h⟩ := Option.bind_eq_some_iff.mp h
  obtain ⟨afterMark, -, h⟩ := Option.bind_eq_some_iff.mp h
  obtain ⟨⟨v, after⟩, hv, h⟩ := Option.bind_eq_some_iff.mp h
  cases h
  exact ht hv

theorem yields_takeMembersUpTo (ht : Yields take Value.Proper) (fuel : Nat) {ms : Members}
    (h : ms.Proper) : Yields (takeMembersUpTo take fuel ms) Members.Proper := by
  induction fuel generalizing ms with
  | zero => exact fun h => nomatch h
  | succ fuel ih =>
    intro s ms' rest htake
    unfold takeMembersUpTo at htake
    obtain ⟨⟨⟨key, v⟩, after⟩, hassign, htake⟩ := Option.bind_eq_some_iff.mp htake
    obtain ⟨inserted, hinsert, htake⟩ := Option.bind_eq_some_iff.mp htake
    have hproper := h.insert (yields_takeAssignment ht hassign) hinsert
    split at htake
    · exact ih hproper htake
    · cases htake
      exact hproper
    · cases htake

theorem yields_takeInlineTable (ht : Yields take Value.Proper) :
    Yields (takeInlineTable take) Members.Proper := by
  intro s ms rest h
  unfold takeInlineTable at h
  split at h
  · cases h
    exact .nil
  · exact yields_takeMembersUpTo ht _ .nil h

end Nested

theorem yields_takeValue (levels : Nat) : Yields (takeValue levels) Value.Proper := by
  induction levels with
  | zero => exact yields_takeFlat
  | succ levels ih =>
    intro s v rest h
    unfold takeValue at h
    split at h
    · obtain ⟨⟨vs, after⟩, hvs, hv⟩ := Option.map_eq_some_iff.mp h
      cases hv
      exact .array (yields_takeItemsUpTo ih _ hvs)
    · obtain ⟨⟨ms, after⟩, hms, hv⟩ := Option.map_eq_some_iff.mp h
      cases hv
      exact (yields_takeInlineTable ih hms).valuesOf
    · exact yields_takeFlat h

/-! ## Lines -/

namespace Outline

variable {o o' : Outline} {s rest : List Char}

theorem Proper.takeLine (h : o.Proper) (hline : o.takeLine s = some (o', rest)) : o'.Proper := by
  obtain ⟨⟨⟨key, v⟩, after⟩, hassign, hline⟩ := Option.bind_eq_some_iff.mp hline
  obtain ⟨last, -, hline⟩ := Option.bind_eq_some_iff.mp hline
  obtain ⟨inserted, hinsert, hline⟩ := Option.bind_eq_some_iff.mp hline
  cases hline
  exact h.insert (yields_takeAssignment (yields_takeValue _) hassign) hinsert

theorem Proper.takeHeader (h : o.Proper) (hheader : o.takeHeader s = some (o', rest)) :
    o'.Proper := by
  unfold Outline.takeHeader at hheader
  split at hheader
  · obtain ⟨⟨path, afterPath⟩, -, hheader⟩ := Option.bind_eq_some_iff.mp hheader
    obtain ⟨afterMark, -, hheader⟩ := Option.bind_eq_some_iff.mp hheader
    obtain ⟨afterMarks, -, hheader⟩ := Option.bind_eq_some_iff.mp hheader
    obtain ⟨last, -, hheader⟩ := Option.bind_eq_some_iff.mp hheader
    obtain ⟨opened, hopen, hheader⟩ := Option.bind_eq_some_iff.mp hheader
    cases hheader
    exact h.openRow hopen
  · obtain ⟨⟨path, afterPath⟩, -, hheader⟩ := Option.bind_eq_some_iff.mp hheader
    obtain ⟨afterMark, -, hheader⟩ := Option.bind_eq_some_iff.mp hheader
    obtain ⟨last, -, hheader⟩ := Option.bind_eq_some_iff.mp hheader
    obtain ⟨opened, hopen, hheader⟩ := Option.bind_eq_some_iff.mp hheader
    cases hheader
    exact h.openTable hopen
  · cases hheader

/-- Every line keeps an outline proper. -/
theorem Proper.takeAll (h : o.Proper) (fuel : Nat) (hall : takeAll fuel o s = some o') :
    o'.Proper := by
  induction fuel generalizing o s with
  | zero => cases hall
  | succ fuel ih =>
    unfold Outline.takeAll at hall
    split at hall
    · cases hall
      exact h
    · obtain ⟨after, -, hall⟩ := Option.bind_eq_some_iff.mp hall
      exact ih h hall
    · exact ih h hall
    · obtain ⟨after, -, hall⟩ := Option.bind_eq_some_iff.mp hall
      exact ih h hall
    · obtain ⟨⟨headed, after⟩, hheader, hall⟩ := Option.bind_eq_some_iff.mp hall
      exact ih (h.takeHeader hheader) hall
    · obtain ⟨⟨filled, after⟩, hline, hall⟩ := Option.bind_eq_some_iff.mp hall
      exact ih (h.takeLine hline) hall

end Outline

/-- A document has no key twice, in no table, and its integers have sixty-four bits. -/
theorem proper_of_parse? {text : String} {members : List (String × Value)}
    (h : parse? text = some members) : (Value.table members).Proper := by
  obtain ⟨o, hall, h⟩ := Option.bind_eq_some_iff.mp h
  obtain ⟨ms, hclose, h⟩ := Option.bind_eq_some_iff.mp h
  cases h
  exact ((Outline.Proper.empty.takeAll _ hall).close hclose).valuesOf

end StorageProof.Toml
