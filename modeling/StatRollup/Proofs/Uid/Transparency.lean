import StatRollup.Proofs.Uid.Mirror

/-!
# How much is remembered does not matter

A dictionary over tables in memory gives the answers that the tables would give without it
(`replies_eq`).  So two dictionaries over equal tables, whatever either can remember, give the same
answers to the same inquiries and leave equal tables (`replies_of_capacities`).

What keeps them together is that memory and tables agree (`Mirrored`), and that no number is drawn
twice: the number of a new identifier is new (`Drawn.fresh`).  The sequence has 64 bits and may
start anywhere.  It may pass its end, but it comes back to its first number after 2 to the 64
draws.
-/

namespace StatRollup.Uid

/-! ## Inquiries -/

/-- Something that a dictionary is asked. -/
inductive Inquiry where
  /-- The identifier of a name, if it has one. -/
  | get (name : String)
  /-- The identifier of a name, created if it has none. -/
  | getOrCreate (name : String)
  /-- Either of them. -/
  | resolve (mode : FetchMode) (name : String)
  /-- The name of an identifier. -/
  | getName (id : Uid)
  /-- To remember all mappings. -/
  | warm
  deriving DecidableEq, Repr

/-- What a dictionary answers. -/
inductive Reply where
  /-- The identifier that a name has. -/
  | found (result : Except Fault (Option Uid))
  /-- The identifier that a name has now. -/
  | issued (result : Except Fault Uid)
  /-- The name that an identifier has. -/
  | named (result : Except Fault String)
  /-- How many mappings there are. -/
  | warmed (result : Except Fault Nat)

namespace Dictionary

variable {σ : Type} [Store σ]

/-- Answers an inquiry. -/
def reply (d : Dictionary σ) : Inquiry → Reply × Dictionary σ
  | .get name => (.found (d.get name).1, (d.get name).2)
  | .getOrCreate name => (.issued (d.getOrCreate name).1, (d.getOrCreate name).2)
  | .resolve mode name => (.found (d.resolve mode name).1, (d.resolve mode name).2)
  | .getName id => (.named (d.getName id).1, (d.getName id).2)
  | .warm => (.warmed d.warm.1, d.warm.2)

/-- Answers inquiries in order. -/
def replies (d : Dictionary σ) : List Inquiry → List Reply × Dictionary σ
  | [] => ([], d)
  | inquiry :: rest =>
    let (reply, d) := d.reply inquiry
    let (replies, d) := d.replies rest
    (reply :: replies, d)

end Dictionary

/-! ## Tables on their own -/

namespace Tables

/-- The identifier of a name.  One that has none gets the next number, which is lost if it makes no
identifier. -/
def issue (t : Tables) (name : String) : Except Fault Uid × Tables :=
  match t.idOf? name with
  | some u => (.ok u, t)
  | none =>
    match Dialogue.candidate t.width (t.sequence + 1) with
    | .ok u => (.ok u, Dictionary.created t name u)
    | .error f => (.error f, { t with sequence := t.sequence + 1 })

/-- The name of an identifier. -/
def name (t : Tables) (id : Uid) : Except Fault String :=
  if id.isRolledUp then .ok rolledUpName else (t.nameOf? id).elim (.error (.unnamed id)) .ok

/-- What is answered with nothing before the tables. -/
def reply (t : Tables) : Inquiry → Reply × Tables
  | .get name => (.found (.ok (t.idOf? name)), t)
  | .getOrCreate name => (.issued (t.issue name).1, (t.issue name).2)
  | .resolve .find name => (.found (.ok (t.idOf? name)), t)
  | .resolve .create name => (.found ((t.issue name).1.map some), (t.issue name).2)
  | .getName id => (.named (t.name id), t)
  | .warm => (.warmed (.ok t.pairs.length), t)

/-- What is answered to inquiries in order. -/
def replies (t : Tables) : List Inquiry → List Reply × Tables
  | [] => ([], t)
  | inquiry :: rest =>
    let (reply, t) := t.reply inquiry
    let (replies, t) := t.replies rest
    (reply :: replies, t)

/-- How many numbers are drawn for an answer: one for a name that is to have an identifier and has
none. -/
def draws (t : Tables) : Inquiry → Nat
  | .getOrCreate name | .resolve .create name => if (t.idOf? name).isSome then 0 else 1
  | _ => 0

/-- How many numbers are drawn for all answers. -/
def totalDraws (t : Tables) : List Inquiry → Nat
  | [] => 0
  | inquiry :: rest => t.draws inquiry + (t.reply inquiry).2.totalDraws rest

/-- So many numbers were drawn after a first one, and mapped identifiers have some of them. -/
structure Drawn (first count : Nat) (t : Tables) : Prop where
  sequence : t.sequence.toNat = (first + count) % 2 ^ 64
  numbers {n : String} {u : Uid} : t.idOf? n = some u →
    ∃ i < count, u.value = (first + (i + 1)) % 2 ^ 64

theorem drawn_empty (width : Nat) (sequence : UInt64) :
    (empty width sequence).Drawn sequence.toNat 0 :=
  ⟨(Nat.mod_eq_of_lt sequence.toNat_lt).symm, fun h => by simp at h⟩

variable {t : Tables} {first count : Nat} {n : String} {u : Uid}

theorem draws_le_one (t : Tables) (inquiry : Inquiry) : t.draws inquiry ≤ 1 := by
  have hname (n : String) : (if (t.idOf? n).isSome then 0 else 1) ≤ 1 := by split <;> decide
  cases inquiry with
  | getOrCreate n => exact hname n
  | resolve mode n =>
    cases mode with
    | find => exact Nat.zero_le 1
    | create => exact hname n
  | _ => exact Nat.zero_le 1

theorem Drawn.next (h : t.Drawn first count) :
    (t.sequence + 1).toNat = (first + (count + 1)) % 2 ^ 64 := by
  have hsequence := h.sequence
  rw [UInt64.toNat_add, UInt64.toNat_one]
  omega

/-- The next number makes a new identifier. -/
theorem Drawn.fresh (h : t.Drawn first count) (hcount : count < 2 ^ 64)
    (hu : Dialogue.candidate t.width (t.sequence + 1) = .ok u) (n : String) :
    t.idOf? n ≠ some u := by
  intro hmapped
  obtain ⟨i, hi, hvalue⟩ := h.numbers hmapped
  obtain ⟨-, hnext, -⟩ := Dialogue.candidate_eq_ok hu
  rw [h.next, hvalue] at hnext
  omega

theorem Drawn.skip (h : t.Drawn first count) :
    Drawn first (count + 1) { t with sequence := t.sequence + 1 } := by
  refine ⟨h.next, fun hmapped => ?_⟩
  obtain ⟨i, hi, hvalue⟩ := h.numbers hmapped
  exact ⟨i, Nat.lt_succ_of_lt hi, hvalue⟩

/-! ## The order of listing -/

/-- Tables that list their mappings in another order. -/
def reorder (t : Tables) (order : ListingOrder) : Tables := { t with order }

theorem Drawn.reorder (h : t.Drawn first count) (order : ListingOrder) :
    (t.reorder order).Drawn first count := ⟨h.sequence, h.numbers⟩

theorem issue_reorder (t : Tables) (order : ListingOrder) (name : String) :
    (t.reorder order).issue name = ((t.issue name).1, (t.issue name).2.reorder order) := by
  rw [issue, issue]
  have hsame : (t.reorder order).idOf? name = t.idOf? name := rfl
  have hnext : Dialogue.candidate (t.reorder order).width ((t.reorder order).sequence + 1) =
      Dialogue.candidate t.width (t.sequence + 1) := rfl
  rw [hsame, hnext]
  split
  · rfl
  · split <;> rfl

/-- Answers do not depend on the order of listing. -/
theorem reply_reorder (t : Tables) (order : ListingOrder) (inquiry : Inquiry) :
    (t.reorder order).reply inquiry = ((t.reply inquiry).1, (t.reply inquiry).2.reorder order) := by
  cases inquiry with
  | getOrCreate name => rw [reply, issue_reorder, reply]
  | resolve mode name =>
    cases mode with
    | find => rfl
    | create => rw [reply, issue_reorder, reply]
  | warm =>
    have hlength : (t.reorder order).pairs.length = t.pairs.length :=
      (perm_pairs (t.reorder order)).length_eq.trans (perm_pairs t).length_eq.symm
    rw [reply, hlength, reply]
  | get | getName => rfl

theorem replies_reorder (t : Tables) (order : ListingOrder) (inquiries : List Inquiry) :
    (t.reorder order).replies inquiries =
      ((t.replies inquiries).1, (t.replies inquiries).2.reorder order) := by
  induction inquiries generalizing t with
  | nil => rfl
  | cons inquiry rest ih =>
    rw [replies, reply_reorder]
    dsimp only
    rw [ih]
    rfl

theorem totalDraws_reorder (t : Tables) (order : ListingOrder) (inquiries : List Inquiry) :
    (t.reorder order).totalDraws inquiries = t.totalDraws inquiries := by
  induction inquiries generalizing t with
  | nil => rfl
  | cons inquiry rest ih =>
    have hdraws : (t.reorder order).draws inquiry = t.draws inquiry := by cases inquiry <;> rfl
    rw [totalDraws, totalDraws, hdraws, reply_reorder, ih]

end Tables

/-! ## Dictionaries -/

namespace Dictionary

variable {d : Dictionary Tables} {first count : Nat} {n : String} {u : Uid}

theorem drawn_created (h : d.store.Drawn first count) (hnew : d.store.idOf? n = none)
    (hu : Dialogue.candidate d.store.width (d.store.sequence + 1) = .ok u) :
    (created d.store n u).Drawn first (count + 1) := by
  refine ⟨h.next, fun hmapped => ?_⟩
  rw [idOf?_created hnew] at hmapped
  split at hmapped
  · cases hmapped
    obtain ⟨-, hvalue, -⟩ := Dialogue.candidate_eq_ok hu
    exact ⟨count, Nat.lt_succ_self _, hvalue.trans h.next⟩
  · obtain ⟨i, hi, hvalue⟩ := h.numbers hmapped
    exact ⟨i, Nat.lt_succ_of_lt hi, hvalue⟩

/-- A dictionary gives the answer of the tables and leaves them as they would be without it. -/
structure Agrees {α : Type} (first bound : Nat) (answer : α × Dictionary Tables)
    (expected : α × Tables) : Prop where
  result : answer.1 = expected.1
  store : answer.2.store = expected.2
  mirrored : answer.2.Mirrored
  drawn : ∃ count ≤ bound, answer.2.store.Drawn first count

/-- An answer that leaves the tables as they are. -/
theorem Recalls.agrees {α : Type} {result : α} {d' : Dictionary Tables} (hrecalls : d.Recalls d')
    (h : d.store.Drawn first count) :
    Agrees first count (result, d') (result, d.store) :=
  ⟨rfl, hrecalls.store, hrecalls.mirrored, count, Nat.le_refl _, hrecalls.store ▸ h⟩

theorem Agrees.map {α β : Type} {bound : Nat} {answer : α × Dictionary Tables}
    {expected : α × Tables} (h : Agrees first bound answer expected) (f : α → β) :
    Agrees first bound (f answer.1, answer.2) (f expected.1, expected.2) :=
  ⟨congrArg f h.result, h.store, h.mirrored, h.drawn⟩

theorem Agrees.le {α : Type} {bound bound' : Nat} {answer : α × Dictionary Tables}
    {expected : α × Tables} (h : Agrees first bound answer expected) (hle : bound ≤ bound') :
    Agrees first bound' answer expected := by
  obtain ⟨hresult, hstore, hmirrored, count, hcount, hdrawn⟩ := h
  exact ⟨hresult, hstore, hmirrored, count, Nat.le_trans hcount hle, hdrawn⟩

/-- Creating a name. -/
theorem getOrCreate_agrees (h : d.Mirrored) (hdrawn : d.store.Drawn first count) (n : String)
    (hcount : count + d.store.draws (.getOrCreate n) ≤ 2 ^ 64) :
    Agrees first (count + d.store.draws (.getOrCreate n)) (d.getOrCreate n) (d.store.issue n) := by
  have hone (hnew : d.store.idOf? n = none) : d.store.draws (.getOrCreate n) = 1 := by
    rw [Tables.draws, hnew]
    rfl
  rcases getOrCreate_cases d n with ⟨u, d', heq, hobtains⟩ | ⟨f, heq, hnew, hrefused⟩
  · rw [heq]
    cases hobtains with
    | remembered hm =>
      obtain ⟨hrecalls, hfound⟩ := h.idOf hm
      rw [Tables.issue, hfound u rfl]
      exact (hrecalls.agrees hdrawn).le (Nat.le_add_right _ _)
    | mapped hu =>
      rw [Tables.issue, hu]
      exact ((h.remember hu).agrees hdrawn).le (Nat.le_add_right _ _)
    | created hnew hu =>
      rw [hone hnew] at hcount ⊢
      rw [Tables.issue, hnew]
      dsimp only
      rw [hu]
      exact ⟨rfl, rfl, h.created hnew (hdrawn.fresh hcount hu), count + 1, Nat.le_refl _,
        drawn_created hdrawn hnew hu⟩
  · rw [hone hnew, heq, Tables.issue, hnew]
    dsimp only
    rw [hrefused]
    exact ⟨rfl, rfl, h.skip _, count + 1, Nat.le_refl _, hdrawn.skip⟩

/-- Any answer. -/
theorem reply_agrees (h : d.Mirrored) (hdrawn : d.store.Drawn first count) (inquiry : Inquiry)
    (hcount : count + d.store.draws inquiry ≤ 2 ^ 64) :
    Agrees first (count + d.store.draws inquiry) (d.reply inquiry) (d.store.reply inquiry) := by
  cases inquiry with
  | get n =>
    obtain ⟨d', heq, hrecalls⟩ := get_eq h n
    rw [reply, heq]
    exact hrecalls.agrees hdrawn
  | getOrCreate n => exact (getOrCreate_agrees h hdrawn n hcount).map Reply.issued
  | resolve mode n =>
    cases mode with
    | find =>
      obtain ⟨d', heq, hrecalls⟩ := get_eq h n
      rw [reply, resolve, heq]
      exact hrecalls.agrees hdrawn
    | create => exact (getOrCreate_agrees h hdrawn n hcount).map fun r => Reply.found (r.map some)
  | getName u =>
    cases hu : u.isRolledUp with
    | true =>
      rw [reply, Tables.reply, Tables.name, if_pos hu, getName_rolledUp d hu]
      exact h.refl.agrees hdrawn
    | false =>
      obtain ⟨d', heq, hrecalls⟩ := getName_eq h hu
      rw [reply, Tables.reply, Tables.name, if_neg (Bool.eq_false_iff.1 hu), heq]
      exact hrecalls.agrees hdrawn
  | warm =>
    obtain ⟨d', heq, hrecalls⟩ := warm_eq h
    rw [reply, heq]
    exact hrecalls.agrees hdrawn

/-- All answers are those of the tables, and the tables are left as they would be on their own. -/
theorem replies_eq (h : d.Mirrored) (hdrawn : d.store.Drawn first count)
    {inquiries : List Inquiry} (hcount : count + d.store.totalDraws inquiries ≤ 2 ^ 64) :
    (d.replies inquiries).1 = (d.store.replies inquiries).1 ∧
      (d.replies inquiries).2.store = (d.store.replies inquiries).2 := by
  induction inquiries generalizing d count with
  | nil => exact ⟨rfl, rfl⟩
  | cons inquiry rest ih =>
    rw [Tables.totalDraws] at hcount
    obtain ⟨hresult, hstore, hmirrored, count', hle, hdrawn'⟩ :=
      reply_agrees h hdrawn inquiry (by omega)
    obtain ⟨hresults, hend⟩ := ih hmirrored hdrawn' (by rw [hstore]; omega)
    rw [hstore] at hresults hend
    constructor
    · show (d.reply inquiry).1 :: ((d.reply inquiry).2.replies rest).1 =
        (d.store.reply inquiry).1 :: ((d.store.reply inquiry).2.replies rest).1
      rw [hresult, hresults]
    · exact hend

/-- A dictionary over empty tables gives the answers of the tables, in whatever order they list
their mappings. -/
theorem replies_new {width : Nat} {sequence : UInt64} (order : ListingOrder) (capacity : Nat)
    (policy : RetryPolicy) {inquiries : List Inquiry}
    (h : (Tables.empty width sequence).totalDraws inquiries ≤ 2 ^ 64) :
    let d := (new ((Tables.empty width sequence).reorder order) capacity policy).replies inquiries
    d.1 = ((Tables.empty width sequence).replies inquiries).1 ∧
      d.2.store = ((Tables.empty width sequence).replies inquiries).2.reorder order := by
  have hempty := mirrored_new width sequence capacity policy
  have hmirrored : (new ((Tables.empty width sequence).reorder order) capacity policy).Mirrored :=
    ⟨hempty.named, hempty.remembered, hempty.recalled⟩
  have hroom : 0 + ((Tables.empty width sequence).reorder order).totalDraws inquiries ≤ 2 ^ 64 := by
    rw [Tables.totalDraws_reorder]
    omega
  have hreplies := replies_eq hmirrored ((Tables.drawn_empty width sequence).reorder order) hroom
  rwa [show (new ((Tables.empty width sequence).reorder order) capacity policy).store =
    (Tables.empty width sequence).reorder order from rfl, Tables.replies_reorder] at hreplies

/-- Two dictionaries over empty tables of one width and one sequence give the same answers and leave
the same tables, whatever each of them can remember and in whatever order its tables list their
mappings, until the sequence is back at a number that was drawn. -/
theorem replies_of_capacities (width : Nat) (sequence : UInt64) (order order' : ListingOrder)
    (capacity capacity' : Nat) (policy policy' : RetryPolicy) (inquiries : List Inquiry)
    (h : (Tables.empty width sequence).totalDraws inquiries ≤ 2 ^ 64) :
    let d := (new ((Tables.empty width sequence).reorder order) capacity policy).replies inquiries
    let d' :=
      (new ((Tables.empty width sequence).reorder order') capacity' policy').replies inquiries
    d.1 = d'.1 ∧ d.2.store.reorder order' = d'.2.store := by
  obtain ⟨hreplies, hstore⟩ := replies_new order capacity policy h
  obtain ⟨hreplies', hstore'⟩ := replies_new order' capacity' policy' h
  refine ⟨hreplies.trans hreplies'.symm, ?_⟩
  rw [hstore, hstore']
  rfl

/-- The last number of a width is issued, and then none is left.  An identifier without a name is
asked for as well as one with a name. -/
def lastNumber : List Inquiry :=
  [.getOrCreate "host", .getOrCreate "web", .get "web", .warm, .resolve .create "host",
    .resolve .create "db"] ++ ([254, 9, 255].filterMap (Uid.ofNat? 1)).map .getName

theorem replies_of_capacities_lastNumber :
    let backwards : ListingOrder := ⟨List.reverse, List.reverse_perm⟩
    let d := (new (Tables.empty 1 253) 0 {}).replies lastNumber
    let d' := (new ((Tables.empty 1 253).reorder backwards) 5 {}).replies lastNumber
    d.1 = d'.1 ∧ d.2.store.reorder backwards = d'.2.store ∧ d.2.store.sequence = 256 := by
  intro backwards
  obtain ⟨hreplies, hstore⟩ := replies_of_capacities 1 253 (Tables.empty 1 253).order backwards 0 5
    {} {} lastNumber (by decide +kernel)
  exact ⟨hreplies, hstore, by decide +kernel⟩

end Dictionary

end StatRollup.Uid
