import StorageProof.Proofs.CommandLine.Identifiers
import StorageProof.Proofs.Flow.Launches

/-!
# The exit status

The exit code is zero if what was asked for has been done, and one if it has not. For a request that
makes a transaction, and that nobody cancels, it is zero if and only if exactly one process was
started for the transaction and ended with code zero. Nothing is printed when the exit code is one,
but for the line that tells of a proof that was checked and rejected.
-/

namespace StorageProof.CommandLine

variable {σ α β ω : Type}

/-! ## Work -/

namespace Work

theorem isOk_mapError {ε ε' : Type} (r : Except ε α) (f : ε → ε') :
    (r.mapError f).isOk = r.isOk := by
  cases r <;> rfl

theorem isOk_doing (activity : String) (a : Action σ α) (site : Site σ) :
    (doing activity a site).1.isOk = (a site).1.isOk := isOk_mapError _ _

variable (activity : String) (run : Desk σ → Except Failure (α × Report) × Desk σ) (site : Site σ)

theorem isOk_conducting :
    (conducting activity run site).1.isOk = (run ⟨site, none⟩).1.isOk :=
  (isOk_mapError _ _).trans (isOk_map _ _)

theorem conducting_site : (conducting activity run site).2 = (run ⟨site, none⟩).2.site := rfl

theorem conducting_bind (f : α → Work σ β) :
    (conducting activity run >>= f) site =
      match run ⟨site, none⟩ with
      | (.ok (x, _), d) => f x d.site
      | (.error e, d) => (.error ⟨activity, e⟩, d.site) := by
  rcases h : run ⟨site, none⟩ with ⟨e | ⟨x, report⟩, d⟩
  · exact bind_of_error (by simp only [conducting, h]; rfl)
  · exact bind_of_ok (by simp only [conducting, h]; rfl)

variable {text : String} (f : Identifier → Work σ β)

theorem identifier_bind {id : Identifier} (h : Identifier.parse text = .ok id) :
    (identifier text >>= f) site = f id site :=
  bind_of_ok (by simp only [identifier, h]; rfl)

theorem identifier_bind_error {e : Failure} (h : Identifier.parse text = .error e) :
    ∃ c, (identifier text >>= f) site = (.error c, site) :=
  ⟨_, bind_of_error (by simp only [identifier, h]; rfl)⟩

end Work

/-! ## The line of a rejection -/

/-- The line that tells of a proof that was rejected. -/
def rejection (id : Identifier) : String :=
  "REJECTED: proof for " ++ id.text ++ " did not verify\n"

theorem toList_rejection (id : Identifier) : (rejection id).toList =
    "REJECTED: proof for ".toList ++ (id.text.toList ++ " did not verify\n".toList) := by
  unfold rejection
  rw [String.toList_append, String.toList_append, List.append_assoc]

theorem rejection_injective {a b : Identifier} (h : rejection a = rejection b) : a = b := by
  have hlist := congrArg String.toList h
  rw [toList_rejection, toList_rejection] at hlist
  have htext := List.append_cancel_right (List.append_cancel_left hlist)
  exact Identifier.ext (String.toList_injective htext)

theorem ne_rejection_of_head {line : String} (h : line.toList.head? ≠ some 'R') (id : Identifier) :
    line ≠ rejection id := by
  rintro rfl
  refine h ?_
  rw [toList_rejection]
  simp

/-- No text of an identifier has a blank in it. -/
theorem text_ne_rejection (own id : Identifier) : own.text ++ "\n" ≠ rejection id := by
  intro h
  have hblank : ' ' ∈ (rejection id).toList := by
    rw [toList_rejection]
    exact List.mem_append_left _ (by decide)
  rw [← h, String.toList_append] at hblank
  rcases List.mem_append.mp hblank with htext | hend
  · exact absurd (own.not_blank ' ' htext) (by decide)
  · exact absurd hend (by decide)

/-- The line about a proof begins with its size. -/
theorem shownProof_ne_rejection (p : ProofBlob) (id : Identifier) :
    shownProof p ++ "\n" ≠ rejection id := by
  refine ne_rejection_of_head ?_ id
  have hline : shownProof p ++ "\n" = p.size.repr ++ " bytes, sha256 " ++ p.digest ++ "\n" := by
    unfold shownProof
    rfl
  rw [hline]
  simp only [String.toList_append, Nat.toList_repr, List.append_assoc]
  rcases hdigits : Nat.toDigits 10 p.size with _ | ⟨c, rest⟩
  · exact absurd hdigits Nat.toDigits_ne_nil
  · have hdigit : c.isDigit = true :=
      Nat.isDigit_of_mem_toDigits (by decide) (by decide) (hdigits ▸ List.mem_cons_self)
    intro hhead
    rw [show c = 'R' from Option.some.inj hhead] at hdigit
    exact absurd hdigit (by decide)

/-! ## Truthful results -/

/-- A result that tells whether a request has succeeded, and whether the proof of an agreement has
been rejected. -/
inductive Truthful (succeeds : Prop) (rejects : Identifier → Prop) : Except Complaint Outcome → Prop
  | succeeded {o : Outcome} (h : succeeds) (hrejects : ∀ id, ¬ rejects id) (hcode : o.code = 0)
      (hstdout : ∀ id, o.stdout ≠ rejection id) : Truthful succeeds rejects (.ok o)
  | rejected {id : Identifier} (h : ¬ succeeds) (hrejects : ∀ other, rejects other ↔ other = id) :
      Truthful succeeds rejects (.ok { code := 1, stdout := rejection id })
  | failed {c : Complaint} (h : ¬ succeeds) (hrejects : ∀ id, ¬ rejects id) :
      Truthful succeeds rejects (.error c)

/-- Work after which a line is printed that tells of no rejection. -/
theorem Truthful.of_pure {succeeds : Prop} {w : Work σ α} {site : Site σ} {f : α → Outcome}
    (h : succeeds ↔ (w site).1.isOk) (hcode : ∀ a, (f a).code = 0)
    (hstdout : ∀ a id, (f a).stdout ≠ rejection id) :
    Truthful succeeds (fun _ => False) ((w >>= fun a => pure (f a)) site).1 := by
  rw [bind_pure_apply]
  rcases hw : (w site).1 with c | a
  · refine .failed ?_ fun _ => id
    rw [h, hw]
    nofun
  · refine .succeeded ?_ (fun _ => id) (hcode a) (hstdout a)
    rw [h, hw]
    rfl

namespace Errand

/-- A verification comes to a verdict on the proof of an agreement. -/
def Audits (s : Settings) (run : Runner σ) (site : Site σ) (text : String) (accepted : Bool)
    (id : Identifier) : Prop :=
  Identifier.parse text = .ok id ∧ ∃ audit report,
    (s.verify run id ⟨site, none⟩).1 = .ok (audit, report) ∧ audit.accepted = accepted

/-- What an errand is for is done. What a verification is for is a proof that is accepted. -/
def Succeeds (s : Settings) (run : Runner σ) (site : Site σ) : Errand → Prop
  | .publish source target => (s.publish run source target ⟨site, none⟩).1.isOk
  | .mine text => ∃ id, Identifier.parse text = .ok id ∧ (s.mine run id ⟨site, none⟩).1.isOk
  | .verify text => ∃ id, Audits s run site text true id
  | .setup force => (s.setup run force ⟨site, none⟩).1.isOk
  | .showAgreement text => ∃ id, Identifier.parse text = .ok id ∧
      (s.account.agreement run id site).1.isOk
  | .showProof text => ∃ id, Identifier.parse text = .ok id ∧ (s.account.proof run id site).1.isOk

def Rejects (s : Settings) (run : Runner σ) (site : Site σ) (id : Identifier) : Errand → Prop
  | .verify text => Audits s run site text false id
  | _ => False

/-- What an errand ends in tells what has become of it. -/
abbrev Tells (s : Settings) (run : Runner σ) (site : Site σ) (e : Errand) : Prop :=
  Truthful (e.Succeeds s run site) (fun id => e.Rejects s run site id) (e.perform s run site).1

section Runs

variable (s : Settings) (run : Runner σ) (site : Site σ)

/-- An errand about an agreement that no identifier is given for comes to nothing. -/
theorem unreadable (c : Inquiry) {text : String} {failure : Failure}
    (h : Identifier.parse text = .error failure) :
    ¬ (c.errand text).Succeeds s run site ∧
      (∀ id, ¬ (c.errand text).Rejects s run site id) ∧
      ∃ complaint, (c.errand text).perform s run site = (.error complaint, site) := by
  refine ⟨?_, ?_, ?_⟩
  · cases c <;> simp [Inquiry.errand, Succeeds, Audits, h]
  · cases c <;> simp [Inquiry.errand, Rejects, Audits, h]
  · cases c <;> exact Work.identifier_bind_error site _ h

theorem tells_unreadable (c : Inquiry) {text : String} {failure : Failure}
    (h : Identifier.parse text = .error failure) : (c.errand text).Tells s run site := by
  obtain ⟨hsucceeds, hrejects, complaint, hperform⟩ := unreadable s run site c h
  unfold Tells
  rw [hperform]
  exact .failed hsucceeds hrejects

theorem tells_publish (source target : String) : (publish source target).Tells s run site :=
  .of_pure (by simp only [Succeeds, Work.isOk_conducting]) (fun _ => rfl)
    fun _ => ne_rejection_of_head (by simp [toString])

theorem tells_setup (force : Bool) : (setup force).Tells s run site :=
  .of_pure (by simp only [Succeeds, Work.isOk_conducting]) (fun _ => rfl)
    fun created => ne_rejection_of_head (by cases created <;> simp [toString])

variable {text : String} {id : Identifier} (hid : Identifier.parse text = .ok id)

include hid

theorem tells_mine : (mine text).Tells s run site := by
  unfold Tells
  rw [perform, Work.identifier_bind site _ hid]
  refine .of_pure ?_ (fun _ => rfl) fun _ => ne_rejection_of_head (by simp [toString])
  simp [Succeeds, hid, Work.isOk_conducting]

theorem audits_iff {accepted : Bool} {other : Identifier} :
    Audits s run site text accepted other ↔ other = id ∧ ∃ audit report,
      (s.verify run id ⟨site, none⟩).1 = .ok (audit, report) ∧ audit.accepted = accepted := by
  constructor
  · rintro ⟨hother, haudit⟩
    obtain rfl : id = other := Except.ok.inj (hid.symm.trans hother)
    exact ⟨rfl, haudit⟩
  · rintro ⟨rfl, haudit⟩
    exact ⟨hid, haudit⟩

theorem tells_verify : (verify text).Tells s run site := by
  unfold Tells
  rw [perform, Work.identifier_bind site _ hid, Work.conducting_bind]
  rcases hrun : s.verify run id ⟨site, none⟩ with ⟨e | ⟨audit, report⟩, d⟩
  · refine .failed ?_ fun other => ?_ <;>
      simp [Succeeds, Rejects, audits_iff s run site hid, hrun]
  cases haccepted : audit.accepted with
  | true =>
    simp only [haccepted, if_true]
    refine .succeeded ?_ (fun other => ?_) rfl (ne_rejection_of_head (by simp [toString]))
    · simp [Succeeds, audits_iff s run site hid, hrun, haccepted]
    · simp [Rejects, audits_iff s run site hid, hrun, haccepted]
  | false =>
    simp only [haccepted]
    refine .rejected ?_ fun other => ?_
    · simp [Succeeds, audits_iff s run site hid, hrun, haccepted]
    · simp [Rejects, audits_iff s run site hid, hrun, haccepted]

theorem tells_showAgreement : (showAgreement text).Tells s run site := by
  unfold Tells
  rw [perform, Work.identifier_bind site _ hid]
  refine .of_pure ?_ (fun _ => rfl) fun a => ne_rejection_of_head ?_
  · simp [Succeeds, hid, Work.isOk_doing]
  · unfold shownAgreement
    simp [toString]

theorem tells_showProof : (showProof text).Tells s run site := by
  unfold Tells
  rw [perform, Work.identifier_bind site _ hid]
  refine .of_pure ?_ (fun _ => rfl) shownProof_ne_rejection
  simp [Succeeds, hid, Work.isOk_doing]

theorem mine_site : ((mine text).perform s run site).2 = (s.mine run id ⟨site, none⟩).2.site := by
  rw [perform, Work.identifier_bind site _ hid, bind_pure_apply, Work.conducting_site]

omit hid in
theorem publish_site (source target : String) : ((publish source target).perform s run site).2 =
    (s.publish run source target ⟨site, none⟩).2.site := by
  rw [perform, bind_pure_apply, Work.conducting_site]

omit hid in
theorem tells (e : Errand) : e.Tells s run site := by
  have hread (c : Inquiry) (text : String)
      (h : ∀ id, Identifier.parse text = .ok id → (c.errand text).Tells s run site) :
      (c.errand text).Tells s run site := by
    rcases hid : Identifier.parse text with failure | id
    · exact tells_unreadable s run site c hid
    · exact h id hid
  cases e with
  | publish source target => exact tells_publish s run site source target
  | setup force => exact tells_setup s run site force
  | mine text => exact hread .mine text fun id => tells_mine s run site
  | verify text => exact hread .verify text fun id => tells_verify s run site
  | showAgreement text => exact hread .showAgreement text fun id => tells_showAgreement s run site
  | showProof text => exact hread .showProof text fun id => tells_showProof s run site

end Runs

end Errand

namespace Request

variable (r : Request) (home : Path) (runner : (poll : Nat) → Runner σ) (site : Site σ)

/-- What is asked for is done, with settings that can be had if it needs any. -/
def Succeeds : Prop :=
  match r.command with
  | .identify file => (Agreement.readFrom file site).1.isOk
  | .errand e => ∃ s, r.effectiveSettings home site.files = .ok s ∧
      e.Succeeds s (runner s.pollMillis.toNat) site

/-- What is asked for is a verification, and it comes to a proof that is rejected. -/
def Rejects (id : Identifier) : Prop :=
  match r.command with
  | .identify _ => False
  | .errand e => ∃ s, r.effectiveSettings home site.files = .ok s ∧
      e.Rejects s (runner s.pollMillis.toNat) site id

section Errands

variable {r} {e : Errand} (hcommand : r.command = .errand e)

include hcommand

theorem of_settings_error {c : Complaint}
    (hsettings : r.effectiveSettings home site.files = .error c) :
    ¬ r.Succeeds home runner site ∧ (∀ id, ¬ r.Rejects home runner site id) ∧
      r.perform home runner site = (.error c, site) := by
  simp [Succeeds, Rejects, perform, hcommand, hsettings]

variable {s : Settings} (hsettings : r.effectiveSettings home site.files = .ok s)

include hsettings

theorem succeeds_iff :
    r.Succeeds home runner site ↔ e.Succeeds s (runner s.pollMillis.toNat) site := by
  simp [Succeeds, hcommand, hsettings]

theorem rejects_iff (id : Identifier) :
    r.Rejects home runner site id ↔ e.Rejects s (runner s.pollMillis.toNat) site id := by
  simp [Rejects, hcommand, hsettings]

theorem perform_errand :
    r.perform home runner site = e.perform s (runner s.pollMillis.toNat) site := by
  simp only [perform, hcommand, hsettings]

end Errands

/-- What a request ends in tells what has become of it. -/
theorem tells : Truthful (r.Succeeds home runner site) (r.Rejects home runner site)
    (r.perform home runner site).1 := by
  rcases hcommand : r.command with e | file
  · rcases hsettings : r.effectiveSettings home site.files with c | s
    · obtain ⟨hsucceeds, hrejects, hperform⟩ :=
        of_settings_error home runner site hcommand hsettings
      rw [hperform]
      exact .failed hsucceeds hrejects
    · have htells := e.tells s (runner s.pollMillis.toNat) site
      rw [Errand.Tells, ← perform_errand home runner site hcommand hsettings] at htells
      simpa only [succeeds_iff home runner site hcommand hsettings,
        funext fun id => propext (rejects_iff home runner site hcommand hsettings id)] using htells
  · unfold Succeeds Rejects perform
    rw [hcommand]
    refine .of_pure ?_ (fun _ => rfl) fun a => text_ne_rejection a.identifier
    rw [Work.isOk_doing]

theorem outcome_site : (r.outcome home runner site).2 = (r.perform home runner site).2 := by
  unfold outcome
  rcases r.perform home runner site with ⟨c | o, site'⟩ <;> rfl

/-- The exit code tells whether a request has succeeded, and what is printed tells whether a proof
has been rejected. -/
theorem outcome_tells :
    ((r.outcome home runner site).1.code = 0 ↔ r.Succeeds home runner site) ∧
    ((r.outcome home runner site).1.code = 0 ∨ (r.outcome home runner site).1.code = 1) ∧
    ((r.outcome home runner site).1.code ≠ 0 → (r.outcome home runner site).1.stdout = "" ∨
      ∃ id, (r.outcome home runner site).1.stdout = rejection id) ∧
    ∀ id, ((r.outcome home runner site).1.stdout = rejection id ↔ r.Rejects home runner site id) ∧
      (r.Rejects home runner site id → (r.outcome home runner site).1.code = 1) := by
  have htells := r.tells home runner site
  unfold outcome
  rcases hperform : r.perform home runner site with ⟨result, site'⟩
  rw [hperform] at htells
  cases (show Truthful _ _ result from htells) with
  | succeeded h hrejects hcode hstdout =>
    refine ⟨by simp [hcode, h], .inl hcode, fun hne => absurd hcode hne, fun id => ?_⟩
    simp [hstdout id, hrejects id]
  | rejected h hrejects =>
    refine ⟨by simp [h], .inr rfl, fun _ => .inr ⟨_, rfl⟩, fun other => ?_⟩
    refine ⟨⟨fun heq => (hrejects other).mpr (rejection_injective heq).symm, fun hother => ?_⟩,
      fun _ => rfl⟩
    rw [(hrejects other).mp hother]
  | @failed c h hrejects =>
    have hempty (id : Identifier) : c.outcome.stdout ≠ rejection id :=
      ne_rejection_of_head (by simp [Complaint.outcome]) id
    refine ⟨by simp [Complaint.outcome, h], .inr rfl, fun _ => .inl rfl, fun id => ?_⟩
    simp [hempty id, hrejects id]

end Request

/-! ## Transactions -/

/-- The name of the transaction that an errand makes in the end. -/
def Errand.transaction? : Errand → Option String
  | .publish .. => some "createSla"
  | .mine _ => some "commitProof"
  | _ => none

section Watching

variable {behaviour : Behaviour ω} {site : Site (Watchman ω)} (hlog : site.tools.log = [])

include hlog

/-- An errand that makes a transaction, and that nobody cancels, succeeds if and only if exactly one
process is started for the transaction and ends with code zero. -/
theorem Errand.succeeds_iff_submits {e : Errand} {name : String}
    (hname : e.transaction? = some name) (s : Settings)
    (huncancelled :
      (e.perform s (Runner.watching behaviour) site).2.tools.held.isCancelled = false) :
    e.Succeeds s (Runner.watching behaviour) site ↔
      (e.perform s (Runner.watching behaviour) site).2.tools.Submits name := by
  cases e with
  | publish source target =>
    rw [publish_site] at huncancelled ⊢
    exact s.isOk_undertake_iff_submits behaviour (.publish source target) hname hlog huncancelled
  | mine text =>
    rcases hid : Identifier.parse text with failure | id
    · obtain ⟨hsucceeds, -, complaint, hperform⟩ :=
        unreadable s (Runner.watching behaviour) site .mine hid
      have hsite : ((mine text).perform s (Runner.watching behaviour) site).2 = site :=
        congrArg Prod.snd hperform
      rw [hsite]
      exact iff_of_false hsucceeds (Watchman.not_submits hlog name)
    · rw [mine_site s _ site hid] at huncancelled ⊢
      have hsucceeds : (mine text).Succeeds s (Runner.watching behaviour) site ↔
          (s.mine (Runner.watching behaviour) id ⟨site, none⟩).1.isOk := by simp [Succeeds, hid]
      exact hsucceeds.trans
        (s.isOk_undertake_iff_submits behaviour (.mine id) hname hlog huncancelled)
  | verify text => cases hname
  | setup force => cases hname
  | showAgreement text => cases hname
  | showProof text => cases hname

end Watching

theorem Request.succeeds_iff_submits {behaviour : (poll : Nat) → Behaviour ω}
    {site : Site (Watchman ω)} (hlog : site.tools.log = []) {r : Request} {e : Errand}
    (hcommand : r.command = .errand e) {name : String} (hname : e.transaction? = some name)
    {home : Path} {site' : Site (Watchman ω)}
    (hsite : (r.perform home (fun poll => .watching (behaviour poll)) site).2 = site')
    (huncancelled : site'.tools.held.isCancelled = false) :
    r.Succeeds home (fun poll => .watching (behaviour poll)) site ↔ site'.tools.Submits name := by
  subst hsite
  rcases hsettings : r.effectiveSettings home site.files with c | s
  · obtain ⟨hsucceeds, -, hperform⟩ :=
      of_settings_error home (fun poll => .watching (behaviour poll)) site hcommand hsettings
    rw [hperform]
    exact iff_of_false hsucceeds (Watchman.not_submits hlog name)
  · rw [perform_errand home _ site hcommand hsettings] at huncancelled ⊢
    rw [succeeds_iff home _ site hcommand hsettings]
    exact Errand.succeeds_iff_submits hlog hname s huncancelled

/-- The exit status tells the truth. Whatever the settings, the files and the tools are, a request
that nobody cancels ends with exit code zero if what is asked for is done, and with one otherwise:
publishing and mining are done if and only if exactly one process has been started for their
transaction and has ended with code zero, and a verification if and only if it comes to a proof that
is accepted. Where the exit code is not zero, nothing is printed but the line of a rejection, and
this line is printed if and only if a verification comes to a proof that is rejected. -/
theorem exit_status_truthful {words : List String} {r : Request}
    (hwords : Request.ofWords words = .ok r) (home : Path) (behaviour : (poll : Nat) → Behaviour ω)
    (fs : FileSystem) (world : ω) (held : Held) {outcome : Outcome} {site : Site (Watchman ω)}
    (hanswer : answer words home (fun poll => .watching (behaviour poll)) ⟨fs, world, held, []⟩ =
      (outcome, site))
    (huncancelled : site.tools.held.isCancelled = false) :
    (outcome.code = 0 ↔
      r.Succeeds home (fun poll => .watching (behaviour poll)) ⟨fs, world, held, []⟩) ∧
    (∀ source target, r.command = .errand (.publish source target) →
      (outcome.code = 0 ↔ site.tools.Submits "createSla")) ∧
    (∀ text, r.command = .errand (.mine text) →
      (outcome.code = 0 ↔ site.tools.Submits "commitProof")) ∧
    (outcome.code = 0 ∨ outcome.code = 1) ∧
    (outcome.code ≠ 0 → outcome.stdout = "" ∨ ∃ id, outcome.stdout = rejection id) ∧
    ∀ id, (outcome.stdout = rejection id ↔
        r.Rejects home (fun poll => .watching (behaviour poll)) ⟨fs, world, held, []⟩ id) ∧
      (r.Rejects home (fun poll => .watching (behaviour poll)) ⟨fs, world, held, []⟩ id →
        outcome.code = 1) := by
  have hrequest : r.outcome home (fun poll => .watching (behaviour poll))
      ⟨fs, world, held, []⟩ = (outcome, site) := by
    rw [← hanswer]
    simp only [answer, hwords]
  have htells :=
    r.outcome_tells home (fun poll => .watching (behaviour poll)) ⟨fs, world, held, []⟩
  have hsite :=
    r.outcome_site home (fun poll => .watching (behaviour poll)) ⟨fs, world, held, []⟩
  rw [hrequest] at htells hsite
  obtain ⟨hcode, hone, hstdout, hline⟩ := htells
  refine ⟨hcode, fun source target hcommand => ?_, fun text hcommand => ?_, hone, hstdout, hline⟩
  · exact hcode.trans (r.succeeds_iff_submits rfl hcommand rfl hsite.symm huncancelled)
  · exact hcode.trans (r.succeeds_iff_submits rfl hcommand rfl hsite.symm huncancelled)

namespace Specimen

def publishing : List String :=
  ["--work", "/srv/jobs", "publish", "--input", "in.ts", "--output=out.ts"]

/-- What happens in its calls, where the process of the transaction ends in some way. -/
def submitting (how : Exit) : List (List Event) :=
  [Settings.Specimen.succeeding [], Settings.Specimen.succeeding [.copy 0],
    Settings.Specimen.succeeding [], [.scene .looks, .scene (.closes .stdout),
      .scene (.closes .stderr), .scene (.ends how), .scene .looks, .scene .looks, .scene .looks]]

def published (how : Exit) : Outcome × Site (Watchman (List (List Event))) :=
  answer publishing ⟨"/home/op"⟩ (fun _ => .watching Settings.Specimen.scripted)
    ⟨.empty, submitting how, .fresh .empty, []⟩

end Specimen

open Specimen in
/-- One request, whose transaction is made or refused. -/
theorem exit_status_truthful_publishing :
    (published (.code 0)).1.code = 0 ∧ (published (.code 0)).2.tools.Submits "createSla" ∧
      (published (.code 1)).1.code = 1 ∧ ¬ (published (.code 1)).2.tools.Submits "createSla" ∧
      (published (.code 1)).1.stdout = "" := by
  have hwords : Request.ofWords publishing = .ok ⟨none, some ⟨"/srv/jobs"⟩, none, none,
      .errand (.publish "in.ts" "out.ts")⟩ := by decide +kernel
  have hends (how : Exit) : answer publishing ⟨"/home/op"⟩
      (fun _ => .watching Settings.Specimen.scripted) ⟨.empty, submitting how, .fresh .empty, []⟩ =
        ((published how).1, (published how).2) := by
    unfold published
    exact (Prod.eta _).symm
  have hmade := (exit_status_truthful hwords _ _ _ _ _ (hends (.code 0)) (by decide +kernel)).2.1
    _ _ rfl
  have hrefused := (exit_status_truthful hwords _ _ _ _ _ (hends (.code 1))
    (by decide +kernel)).2.1 _ _ rfl
  have hzero : (published (.code 0)).1.code = 0 := by decide +kernel
  have hone : (published (.code 1)).1.code = 1 := by decide +kernel
  have hsilent : (published (.code 1)).1.stdout = "" := by decide +kernel
  have hnone : ¬ (published (.code 1)).2.tools.Submits "createSla" := by
    intro hsubmits
    have hcode := hrefused.mpr hsubmits
    rw [hone] at hcode
    cases hcode
  exact ⟨hzero, hmade.mp hzero, hone, hnone, hsilent⟩

end StorageProof.CommandLine
