import StorageProof.Proofs.Json.Document
import StorageProof.Proofs.Json.Presentation

/-!
# What an object gives

Where a value ends is told by what follows it, so that a document that is an object has its members
in one way only. A record is therefore read from what its members give, whatever stands between
them and in whatever order they come: a field has its text from the one member that is named for it,
and there is no record if some field has no such member or more than one.
-/

namespace StorageProof.Json

/-- A document that is an object with the given members, by their keys and values, and nothing
else. -/
inductive WritesObject : Bytes → List (String × Bytes) → Prop
  | intro {a t b : Bytes} {members : List (String × Bytes)} (ha : AreSpaces a)
      (ht : WritesMembers true t members) (hb : AreSpaces b) :
      WritesObject (a ++ 0x7B :: (t ++ b)) members

/-- The values that members have under any of some names. -/
def valuesNamed (names : List String) (members : List (String × Bytes)) : List Bytes :=
  (members.filter fun p => names.contains p.1).map (·.2)

/-- Members give a text under some names: one member has one of these names, and its value is a
string that stands for the text. -/
def GivesText (names : List String) (members : List (String × Bytes)) (text : String) : Prop :=
  ∃ v, valuesNamed names members = [v] ∧ Form.text.Writes v text

/-- Members give no text under some names. -/
inductive Withholds (names : List String) (members : List (String × Bytes)) : Prop
  /-- No member has one of the names. -/
  | missing (h : valuesNamed names members = [])
  /-- More than one member does, be it with one name twice or with two of them. -/
  | repeated {v w : Bytes} {values : List Bytes} (h : valuesNamed names members = v :: w :: values)
  /-- The value of a member that does is not a string. -/
  | untyped {v : Bytes} (h : v ∈ valuesNamed names members)
      (hv : ∀ text, ¬ Form.text.Writes v text)

/-- Members withhold a text if and only if they do not give one. -/
theorem withholds_iff {names : List String} {members : List (String × Bytes)} :
    Withholds names members ↔ ∀ text, ¬ GivesText names members text := by
  constructor
  · rintro h text ⟨v, hvalues, hv⟩
    cases h with
    | missing h =>
      rw [hvalues] at h
      cases h
    | repeated h =>
      rw [hvalues] at h
      cases h
    | untyped h hno =>
      rw [hvalues, List.mem_singleton] at h
      subst h
      exact hno text hv
  · intro h
    cases hvalues : valuesNamed names members with
    | nil => exact .missing hvalues
    | cons v values =>
      cases values with
      | nil =>
        have hv : v ∈ valuesNamed names members := by rw [hvalues, List.mem_singleton]
        exact .untyped hv fun text hwrites => h text ⟨v, hvalues, hwrites⟩
      | cons w values => exact .repeated hvalues

/-! ## Objects have their members in one way -/

theorem detached_nil : Detached [] := fun _ h => nomatch h

theorem AreSpaces.detached_self {a : Bytes} (h : AreSpaces a) : Detached a := by
  have hdetached := h.detached detached_nil
  rwa [List.append_nil] at hdetached

theorem WellFormed.detached_self {c : Container} {t : Bytes} (h : WellFormed (.items c false) t) :
    Detached t := by
  have hdetached := h.detached []
  rwa [List.append_nil] at hdetached

theorem skipSpace_value {a v : Bytes} (ha : AreSpaces a) (hv : WellFormed .value v)
    (rest : Bytes) : skipSpace (a ++ (v ++ rest)) = v ++ rest := by
  obtain ⟨b, v', rfl, hspace, -⟩ := hv.exists_cons
  exact skipSpace_token ha hspace _

/-- Where a value ends is told by what follows it. -/
theorem WellFormed.append_inj {v v' rest rest' : Bytes} (hv : WellFormed .value v)
    (hv' : WellFormed .value v') (hrest : Detached rest) (hrest' : Detached rest')
    (h : v ++ rest = v' ++ rest') : v = v' ∧ rest = rest' := by
  have hskip := skipValue_append areSpaces_nil hv hrest
  rw [h, skipValue_append areSpaces_nil hv' hrest'] at hskip
  cases hskip
  exact ⟨List.append_cancel_right h, rfl⟩

/-- The key of a member is told apart from its value. -/
theorem WritesKey.append_inj {first : Bool} {s s' l l' x x' : Bytes} {key key' : String}
    (hs : Separates first s) (hs' : Separates first s') (hl : WritesKey l key)
    (hl' : WritesKey l' key') (h : s ++ (l ++ x) = s' ++ (l' ++ x')) :
    key = key' ∧ skipSpace x = skipSpace x' := by
  obtain @⟨a, k, b, c, _, ha, hk, hb, hc⟩ := hl
  obtain @⟨a', k', b', c', _, ha', hk', hb', hc'⟩ := hl'
  simp only [List.append_assoc, List.cons_append] at h
  have hturn := nextKey_key_append hs ha (k ++ 0x22 :: (b ++ 0x3A :: (c ++ x)))
  rw [h, nextKey_key_append hs' ha'] at hturn
  have hstring := readString_of_spells hk (b ++ 0x3A :: (c ++ x))
  rw [← Turn.key.inj (Except.ok.inj hturn), readString_of_spells hk'] at hstring
  obtain ⟨hkey, hafter⟩ := Prod.mk.inj (Except.ok.inj hstring)
  have hcolon : takeColon (b ++ 0x3A :: (c ++ x)) = .ok (c ++ x) :=
    takeColon_eq_ok_iff.mpr ⟨b, hb, rfl⟩
  rw [← hafter, takeColon_eq_ok_iff.mpr ⟨b', hb', rfl⟩] at hcolon
  have hspace := congrArg skipSpace (Except.ok.inj hcolon)
  rw [skipSpace_append hc', skipSpace_append hc] at hspace
  exact ⟨hkey.symm, hspace.symm⟩

/-- The end of an object is not the beginning of a member. -/
theorem WritesKey.ne_close {first : Bool} {s a l x : Bytes} {key : String}
    (hs : Separates first s) (hl : WritesKey l key) (ha : AreSpaces a) :
    s ++ (l ++ x) ≠ a ++ [0x7D] := by
  intro h
  obtain @⟨b, k, c, d, _, hb, -, -, -⟩ := hl
  have hdone : nextKey first (a ++ [0x7D]) = .ok (.done []) := nextKey_done_iff.mpr ⟨a, ha, rfl⟩
  simp only [List.append_assoc, List.cons_append] at h
  rw [← h, nextKey_key_append hs hb] at hdone
  cases hdone

/-- Members are written in one way only up to what does not count. -/
theorem WritesMembers.unique {first : Bool} {t t' : Bytes}
    {members members' : List (String × Bytes)}
    (h : WritesMembers first t members) (h' : WritesMembers first t' members') (ht : t = t') :
    members = members' := by
  induction h generalizing t' members' with
  | close ha =>
    cases h' with
    | close => rfl
    | member hs hl => exact absurd ht.symm (hl.ne_close hs ha)
  | member hs hl hv hrest ih =>
    cases h' with
    | close ha => exact absurd ht (hl.ne_close hs ha)
    | @member _ _ l' v' t' key' _ hs' hl' hv' hrest' =>
      obtain ⟨rfl, hvalue⟩ := hl.append_inj hs hs' hl' ht
      have hvalue := (skipSpace_value areSpaces_nil hv _).symm.trans
        (hvalue.trans (skipSpace_value areSpaces_nil hv' _))
      obtain ⟨rfl, rfl⟩ := hv.append_inj hv' hrest.wellFormed.detached_self
        hrest'.wellFormed.detached_self hvalue
      rw [ih hrest' rfl]

theorem WritesMembers.value {t : Bytes} {members : List (String × Bytes)}
    (h : WritesMembers true t members) : WellFormed .value (0x7B :: t) :=
  .container (c := .object) h.wellFormed

theorem WritesObject.unique {doc doc' : Bytes} {members members' : List (String × Bytes)}
    (h : WritesObject doc members) (h' : WritesObject doc' members') (hdoc : doc = doc') :
    members = members' := by
  obtain @⟨a, t, b, _, ha, ht, hb⟩ := h
  obtain @⟨a', t', b', _, ha', ht', hb'⟩ := h'
  have hvalue := congrArg skipSpace hdoc
  rw [skipSpace_token ha (by decide), skipSpace_token ha' (by decide)] at hvalue
  obtain ⟨hbraces, -⟩ := ht.value.append_inj ht'.value hb.detached_self hb'.detached_self hvalue
  exact ht.unique ht' (List.cons.inj hbraces).2

/-- A document that is an object presents a record if and only if its members give each field its
text. -/
theorem WritesObject.presents_iff {doc : Bytes} {members : List (String × Bytes)}
    (h : WritesObject doc members) {shape : Shape} {texts : List String} :
    shape.Presents doc texts ↔
      List.Forall₂ (fun f text => f.GivenIn members text) shape.fields texts := by
  constructor
  · generalize hdoc : doc = doc'
    rintro (⟨ha, ht, hb, hgiven⟩ | ⟨ha, _, _, _⟩)
    · rwa [h.unique (.intro ha ht hb) hdoc]
    · obtain ⟨ha', _, _⟩ := h
      have hvalue := congrArg skipSpace hdoc
      rw [skipSpace_token ha' (by decide), skipSpace_token ha (by decide)] at hvalue
      cases hvalue
  · intro hgiven
    obtain ⟨ha, ht, hb⟩ := h
    exact .object ha ht hb hgiven

/-! ## Fields and their names -/

/-- A field that is any text is given it under its names, unless it refuses the text. -/
theorem Field.givenIn_iff {f : Field} (hf : f.form = .text) {members : List (String × Bytes)}
    {text : String} : f.GivenIn members text ↔
      GivesText (f.key :: f.aliases) members text ∧ f.refusal? text = none := by
  have hvalues : f.valuesIn members = valuesNamed (f.key :: f.aliases) members := by
    simp only [valuesIn, valuesNamed, answersTo, List.contains_cons]
  rw [GivenIn, GivesText, hvalues]
  simp only [Takes, hf]
  constructor
  · rintro ⟨v, hv, hwrites, hr⟩
    exact ⟨⟨v, hv, hwrites⟩, hr⟩
  · rintro ⟨⟨v, hv, hwrites⟩, hr⟩
    exact ⟨v, hv, hwrites, hr⟩

theorem exists_givenIn {members : List (String × Bytes)} {fields : List Field}
    {texts : List String} {f : Field} (hf : f ∈ fields)
    (h : List.Forall₂ (fun f text => f.GivenIn members text) fields texts) :
    ∃ text, f.GivenIn members text := by
  induction h with
  | nil => cases hf
  | cons hgiven _ ih =>
    rcases List.mem_cons.mp hf with rfl | hf
    · exact ⟨_, hgiven⟩
    · exact ih hf

/-- Nothing is read from an object that withholds the text of a field. -/
theorem WritesObject.read_ne_ok {doc : Bytes} {members : List (String × Bytes)}
    (h : WritesObject doc members) {shape : Shape} (hu : Unambiguous shape.fields) {f : Field}
    (hf : f ∈ shape.fields) (hform : f.form = .text)
    (hwithheld : Withholds (f.key :: f.aliases) members) (texts : List String) :
    shape.read doc ≠ .ok texts := by
  intro hread
  obtain ⟨text, hgiven⟩ :=
    exists_givenIn hf (h.presents_iff.mp ((Shape.read_eq_ok_iff hu).mp hread))
  exact withholds_iff.mp hwithheld text ((Field.givenIn_iff hform).mp hgiven).1

/-! ## Refused texts -/

/-- A text that the field refuses is refused where it stands. -/
theorem Field.read_refused {f : Field} {a v : Bytes} {text reason : String} (ha : AreSpaces a)
    (hv : f.form.Writes v text) (hr : f.refusal? text = some reason) (rest : Bytes) :
    f.read (a ++ (v ++ rest)) = .error (.refused reason) := by
  have htext {w : Bytes} (hw : Spells w (Utf8.ofString text)) (rest : Bytes) :
      f.readText (w ++ 0x22 :: rest) = .error (.refused reason) := by
    simp only [readText, readString_of_spells hw, hr]
  unfold Field.read
  generalize f.form = form at hv
  cases hv with
  | literal hw =>
    rw [List.cons_append, skipSpace_token ha (by decide), List.append_assoc,
      List.singleton_append]
    exact htext hw rest
  | object ha' hw =>
    rw [List.cons_append, skipSpace_token ha (by decide)]
    simp only [List.append_assoc, List.cons_append, List.nil_append]
    rw [if_neg (by decide)]
    simp only [if_true, readVariantObject,
      skipSpace_token ha' (show isSpace 0x22 = false by decide),
      htext hw, bind, Except.bind]

theorem readMembers_error {slots : Slots} {first : Bool} {s rest : Bytes} {e : Fault}
    (hn : nextKey first s = .ok (.key rest)) (hm : readMember slots rest = .error e) :
    readMembers slots first s = .error e := by
  rw [readMembers]
  split
  · next h =>
    rw [hn] at h
    cases h
  · next h =>
    rw [hn] at h
    cases h
  · next h =>
    rw [hn] at h
    cases h
    split
    · next h' =>
      rw [hm] at h'
      cases h'
      rfl
    · next h' =>
      rw [hm] at h'
      cases h'

/-- Members that slots take up to one whose text is refused are refused for that. -/
theorem WritesMembers.readMembers_refused {first : Bool} {t : Bytes}
    {before after : List (String × Bytes)} {key : String} {v : Bytes}
    (h : WritesMembers first t (before ++ (key, v) :: after)) {slots slots' : Slots} {f : Field}
    {text reason : String} (hbefore : slots.TakesAll before slots')
    (hfind : slots'.find? key = some (f, none)) (hv : f.form.Writes v text)
    (hr : f.refusal? text = some reason) (rest : Bytes) :
    Json.readMembers slots first (t ++ rest) = .error (.refused reason) := by
  induction before generalizing first t slots with
  | nil =>
    cases hbefore
    obtain _ | @⟨_, sep, l, _, t, _, _, hs, hl, -, -⟩ := h
    obtain @⟨a, k, b, c, _, ha, hk, hb, hc⟩ := hl
    have hcolon : takeColon (b ++ 0x3A :: (c ++ (v ++ (t ++ rest)))) =
        .ok (c ++ (v ++ (t ++ rest))) := takeColon_eq_ok_iff.mpr ⟨b, hb, rfl⟩
    simp only [List.append_assoc, List.cons_append]
    refine readMembers_error (nextKey_key_append hs ha _) ?_
    simp only [readMember, readString_of_spells hk, hfind, hcolon, f.read_refused hc hv hr]
  | cons member before ih =>
    obtain ⟨key', v'⟩ := member
    obtain _ | ⟨htake, hbefore⟩ := hbefore
    obtain _ | @⟨_, sep, l, _, t, _, _, hs, hl, hv', ht⟩ := h
    obtain @⟨a, k, b, c, _, ha, hk, hb, hc⟩ := hl
    have hmember := readMember_append htake hk hb hc hv' (ht.detached rest)
    simp only [List.append_assoc, List.cons_append]
    rw [readMembers_key (nextKey_key_append hs ha _) hmember]
    exact ih ht hbefore

/-- A record is refused for the text of a member if its slots take all members before it. -/
theorem WritesObject.read_refused {doc : Bytes} {before after : List (String × Bytes)}
    {key : String} {v : Bytes} (h : WritesObject doc (before ++ (key, v) :: after)) {shape : Shape}
    {slots : Slots} {f : Field} {text reason : String}
    (hbefore : shape.slots.TakesAll before slots) (hfind : slots.find? key = some (f, none))
    (hv : f.form.Writes v text) (hr : f.refusal? text = some reason) :
    shape.read doc = .error (.refused reason) := by
  obtain @⟨a, t, b, _, ha, ht, hb⟩ := h
  have hmembers := ht.readMembers_refused hbefore hfind hv hr b
  have hvalue : shape.readValue (a ++ 0x7B :: (t ++ b)) = .error (.refused reason) := by
    simp only [Shape.readValue, skipSpace_token ha (show isSpace 0x7B = false by decide), if_true,
      hmembers, bind, Except.bind]
  simp only [Shape.read, hvalue, bind, Except.bind]

/-- The first member with one of some names. -/
theorem exists_of_valuesNamed {names : List String} {members : List (String × Bytes)} {v : Bytes}
    {values : List Bytes} (h : valuesNamed names members = v :: values) :
    ∃ before key after, members = before ++ (key, v) :: after ∧
      (∀ p ∈ before, names.contains p.1 = false) ∧ names.contains key = true := by
  obtain ⟨⟨key, _⟩, rest, hfilter, rfl, -⟩ := List.map_eq_cons_iff.mp h
  obtain ⟨before, after, rfl, hbefore, hkey, -⟩ := List.filter_eq_cons_iff.mp hfilter
  exact ⟨before, key, after, rfl, fun p hp => Bool.eq_false_iff.mpr (hbefore p hp), hkey⟩

theorem takesAll_unknown {slots : Slots} {members : List (String × Bytes)}
    (h : ∀ p ∈ members, slots.find? p.1 = none) : slots.TakesAll members slots := by
  induction members with
  | nil => exact .nil
  | cons p members ih =>
    obtain ⟨hp, hmembers⟩ := List.forall_mem_cons.mp h
    exact .cons (.unknown hp) (ih hmembers)

/-- A record with one field is refused if the field refuses the text that it is given. -/
theorem WritesObject.read_refused_single {doc : Bytes} {members : List (String × Bytes)}
    (h : WritesObject doc members) {shape : Shape} {f : Field} (hshape : shape.fields = [f])
    (hform : f.form = .text) {text reason : String}
    (ht : GivesText (f.key :: f.aliases) members text) (hr : f.refusal? text = some reason) :
    shape.read doc = .error (.refused reason) := by
  obtain ⟨v, hvalues, hv⟩ := ht
  obtain ⟨before, key, after, rfl, hbefore, hkey⟩ := exists_of_valuesNamed hvalues
  have hslots : shape.slots = [(f, none)] := by
    rw [Shape.slots, hshape, List.map_cons, List.map_nil]
  have hnames (key : String) : (f.key :: f.aliases).contains key = f.answersTo key :=
    List.contains_cons
  have htakes : shape.slots.TakesAll before shape.slots := by
    refine takesAll_unknown fun p hp => ?_
    have hnot := hbefore p hp
    rw [hnames] at hnot
    simp [hslots, Slots.find?, hnot]
  have hfind : shape.slots.find? key = some (f, none) := by
    rw [hnames] at hkey
    simp [hslots, Slots.find?, hkey]
  exact h.read_refused htakes hfind (hform ▸ hv) hr

end StorageProof.Json
