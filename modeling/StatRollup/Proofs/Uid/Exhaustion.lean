import StatRollup.Proofs.Uid.Transparency

/-!
# When the numbers of a width are used up

A dictionary over tables in memory draws a number for every creation of a name that is not mapped,
and for nothing else.  So the creations of one dictionary get the numbers behind the first one in
turn, those up to the largest of the width as identifiers, and every later one is refused with its
number (`numbers_used_up`).  A refused creation costs its number and nothing else.

`Becomes` says what an inquiry can make of the tables, which is one of three things; all else is
proved from it by cases.
-/

namespace StatRollup.Uid

/-- The name that an inquiry creates if it has no identifier. -/
def Inquiry.creates? : Inquiry → Option String
  | .getOrCreate name | .resolve .create name => some name
  | .get _ | .resolve .find _ | .getName _ | .warm => none

/-! ## Numbers -/

/-- The number is given to a new name as an identifier, or refused when it is beyond the largest one
of the width. -/
def Gets (width number : Nat) (answer : Except Fault Uid) : Prop :=
  if number ≤ 2 ^ (8 * width) - 2 then
    ∃ u : Uid, answer = .ok u ∧ u.width = width ∧ u.value = number
  else answer = .error (.exhausted number (2 ^ (8 * width) - 2) width)

/-- All numbers of a width but zero and all ones are issued. -/
theorem maxIssuable_eq {width : Nat} (h : isWidth width = true) :
    maxIssuable width = 2 ^ (8 * width) - 2 := by
  rw [maxIssuable, allOnes_eq (isWidth_iff.1 h).2, Nat.pow_mul]
  rfl

theorem Dialogue.gets_candidate {width : Nat} (h : isWidth width = true) (k : UInt64) :
    Gets width k.toNat (candidate width k) := by
  have hwidth := isWidth_iff.1 h
  rw [Gets, candidate, maxIssuable_eq h]
  split
  · next hle =>
    have hpos : 0 < 2 ^ (8 * width) := Nat.pow_pos (by decide)
    have hfits : k.toNat < 256 ^ width := by
      rw [show 256 = 2 ^ 8 from rfl, ← Nat.pow_mul]
      omega
    rw [if_neg (by omega), ofNat, if_pos h, ofNat?, dif_pos hwidth, dif_pos hfits]
    exact ⟨_, rfl, rfl, rfl⟩
  · next hlt => rw [if_pos (by omega)]

namespace Dictionary

variable {d d' : Dictionary Tables} {first count : Nat} {n : String} {u : Uid}
  {inquiry : Inquiry} {inquiries : List Inquiry}

/-! ## Creations -/

/-- What is answered to the creation of a name that is not mapped, if an inquiry is one. -/
def creation? (d : Dictionary Tables) (inquiry : Inquiry) : Option (Except Fault Uid) :=
  match inquiry.creates? with
  | some n => if (d.store.idOf? n).isSome then none else some (d.getOrCreate n).1
  | none => none

/-- What is answered to the creations of names that are not mapped by then, in order. -/
def creations (d : Dictionary Tables) : List Inquiry → List (Except Fault Uid)
  | [] => []
  | inquiry :: rest => (d.creation? inquiry).toList ++ (d.reply inquiry).2.creations rest

/-- What becomes of the tables with an inquiry, and what is answered if it is a creation. -/
inductive Becomes (d : Dictionary Tables) (inquiry : Inquiry) :
    Option (Except Fault Uid) → Tables → Prop where
  /-- Nothing is created. -/
  | same : Becomes d inquiry none d.store
  /-- A name that is not mapped gets the next number. -/
  | created {n : String} {u : Uid} : inquiry.creates? = some n → d.store.idOf? n = none →
      Dialogue.candidate d.store.width (d.store.sequence + 1) = .ok u →
      Becomes d inquiry (some (.ok u)) (created d.store n u)
  /-- A name that is not mapped is refused, as the next number makes no identifier. -/
  | refused {n : String} {f : Fault} : inquiry.creates? = some n → d.store.idOf? n = none →
      Dialogue.candidate d.store.width (d.store.sequence + 1) = .error f →
      Becomes d inquiry (some (.error f)) { d.store with sequence := d.store.sequence + 1 }

/-- So many numbers were drawn after a first one, and memory and tables agree. -/
structure Counted (first count : Nat) (d : Dictionary Tables) : Prop where
  mirrored : d.Mirrored
  drawn : d.store.Drawn first count

theorem counted_new (width : Nat) (sequence : UInt64) (capacity : Nat) (policy : RetryPolicy) :
    (new (.empty width sequence) capacity policy).Counted sequence.toNat 0 :=
  ⟨mirrored_new width sequence capacity policy, Tables.drawn_empty width sequence⟩

namespace Becomes

variable {answer : Option (Except Fault Uid)} {t : Tables}

theorem extends_ (h : d.Becomes inquiry answer t) : d.store.Extends t := by
  cases h with
  | same => exact .refl _
  | created _ hnew _ => exact extends_created hnew _
  | refused => exact ⟨rfl, id⟩

/-- One more number is drawn if a name is created. -/
theorem drawn (h : d.Becomes inquiry answer t) (hdrawn : d.store.Drawn first count) :
    t.Drawn first (count + answer.toList.length) := by
  cases h with
  | same => exact hdrawn
  | created _ hnew hu => exact drawn_created hdrawn hnew hu
  | refused => exact hdrawn.skip

/-- A creation gets the next number. -/
theorem gets {answer : Except Fault Uid} (h : d.Becomes inquiry (some answer) t)
    (hwidth : isWidth d.store.width = true) (hdrawn : d.store.Drawn first count)
    (hroom : first + count + 1 < 2 ^ 64) : Gets d.store.width (first + count + 1) answer := by
  have hnumber : (d.store.sequence + 1).toNat = first + count + 1 := by
    rw [hdrawn.next, Nat.mod_eq_of_lt (by omega)]
    omega
  have hgets := Dialogue.gets_candidate hwidth (d.store.sequence + 1)
  rw [hnumber] at hgets
  cases h with
  | created _ _ hu => rwa [hu] at hgets
  | refused _ _ hf => rwa [hf] at hgets

end Becomes

/-! ## One inquiry -/

/-- A name that is to have an identifier. -/
theorem becomes_issue (h : d.Counted first count) (hcount : count < 2 ^ 64)
    (hn : inquiry.creates? = some n) :
    d.Becomes inquiry (d.creation? inquiry) (d.store.issue n).2 := by
  have hone := d.store.draws_le_one (.getOrCreate n)
  have hresult := (getOrCreate_agrees h.mirrored h.drawn n (by omega)).result
  rw [creation?, hn]
  dsimp only
  cases hold : d.store.idOf? n with
  | some u =>
    rw [Tables.issue, hold]
    exact .same
  | none =>
    rw [hresult, Tables.issue, hold]
    cases hu : Dialogue.candidate d.store.width (d.store.sequence + 1) with
    | ok u =>
      exact .created hn hold hu
    | error f =>
      exact .refused hn hold hu

/-- An inquiry is answered from the tables, and counts if it creates a name. -/
theorem Counted.reply (h : d.Counted first count) (hcount : count < 2 ^ 64) (inquiry : Inquiry) :
    d.Becomes inquiry (d.creation? inquiry) (d.reply inquiry).2.store ∧
      (d.reply inquiry).2.Counted first (count + (d.creation? inquiry).toList.length) := by
  have hone := d.store.draws_le_one inquiry
  have hagrees := reply_agrees h.mirrored h.drawn inquiry (by omega)
  have hbecomes : d.Becomes inquiry (d.creation? inquiry) (d.reply inquiry).2.store := by
    rw [hagrees.store]
    cases inquiry with
    | getOrCreate n => exact becomes_issue h hcount rfl
    | resolve mode n =>
      cases mode with
      | find => exact .same
      | create => exact becomes_issue h hcount rfl
    | get | getName | warm => exact .same
  exact ⟨hbecomes, hagrees.mirrored, hbecomes.drawn h.drawn⟩

/-- A name that is mapped is answered with what it is mapped to. -/
theorem Counted.getOrCreate_mapped (h : d.Counted first count) (hcount : count < 2 ^ 64)
    (hu : d.store.idOf? n = some u) : (d.getOrCreate n).1 = .ok u := by
  have hone := d.store.draws_le_one (.getOrCreate n)
  rw [(getOrCreate_agrees h.mirrored h.drawn n (by omega)).result, Tables.issue, hu]

/-! ## Many inquiries -/

theorem replies_append (d : Dictionary Tables) (before after : List Inquiry) :
    (d.replies (before ++ after)).2 = ((d.replies before).2.replies after).2 := by
  induction before generalizing d with
  | nil => rfl
  | cons inquiry before ih => exact ih _

theorem creations_append (d : Dictionary Tables) (before after : List Inquiry) :
    d.creations (before ++ after) = d.creations before ++ (d.replies before).2.creations after := by
  induction before generalizing d with
  | nil => rfl
  | cons inquiry before ih =>
    rw [List.cons_append, creations, creations, ih, List.append_assoc]
    rfl

theorem Counted.replies (h : d.Counted first count) (inquiries : List Inquiry)
    (hroom : count + (d.creations inquiries).length < 2 ^ 64) :
    (d.replies inquiries).2.Counted first (count + (d.creations inquiries).length) ∧
      d.store.Extends (d.replies inquiries).2.store := by
  induction inquiries generalizing d count with
  | nil => exact ⟨h, .refl _⟩
  | cons inquiry rest ih =>
    rw [creations, List.length_append, ← Nat.add_assoc] at hroom ⊢
    obtain ⟨hbecomes, hnext⟩ := h.reply (by omega) inquiry
    obtain ⟨hcounted, hextends⟩ := ih hnext hroom
    exact ⟨hcounted, hbecomes.extends_.trans hextends⟩

/-- The creations get the numbers behind those that were drawn, in turn. -/
theorem Counted.gets (h : d.Counted first count) (hwidth : isWidth d.store.width = true)
    (hroom : first + count + (d.creations inquiries).length < 2 ^ 64) {k : Nat}
    {answer : Except Fault Uid} (hk : (d.creations inquiries)[k]? = some answer) :
    Gets d.store.width (first + count + k + 1) answer := by
  induction inquiries generalizing d count k with
  | nil => cases hk
  | cons inquiry rest ih =>
    rw [creations] at hroom hk
    rw [List.length_append] at hroom
    obtain ⟨hbecomes, hnext⟩ := h.reply (by omega) inquiry
    have hsame := hbecomes.extends_.width
    cases hc : d.creation? inquiry with
    | none =>
      rw [hc] at hroom hk hnext
      have hrest := ih hnext (by rwa [hsame]) (by simpa using hroom) (by simpa using hk)
      rwa [hsame] at hrest
    | some given =>
      rw [hc] at hbecomes hroom hk hnext
      rw [Option.toList_some, List.length_singleton] at hroom hnext
      rw [Option.toList_some, List.singleton_append] at hk
      cases k with
      | zero =>
        cases hk
        exact hbecomes.gets hwidth h.drawn (by omega)
      | succ k =>
        have hrest := ih hnext (by rwa [hsame]) (by omega) hk
        rw [hsame] at hrest
        rwa [show first + count + (k + 1) + 1 = first + (count + 1) + k + 1 by omega]

/-! ## What a creation leaves -/

/-- What an inquiry leaves as it is. -/
structure Settles (d : Dictionary Tables) (inquiry : Inquiry) : Prop where
  /-- A name that is created is mapped to what is answered. -/
  created {n : String} {u : Uid} : inquiry.creates? = some n →
    d.creation? inquiry = some (.ok u) → (d.reply inquiry).2.store.idOf? n = some u
  /-- A refused creation leaves both tables as they are. -/
  refused {f : Fault} : d.creation? inquiry = some (.error f) →
    (d.reply inquiry).2.store.forward = d.store.forward ∧
      (d.reply inquiry).2.store.reverse = d.store.reverse
  /-- Nothing but a creation changes anything. -/
  same : d.creation? inquiry = none → (d.reply inquiry).2.store = d.store

theorem Counted.settles (h : d.Counted first count) (hcount : count < 2 ^ 64)
    (inquiry : Inquiry) : d.Settles inquiry := by
  obtain ⟨hbecomes, -⟩ := h.reply hcount inquiry
  constructor
  case created =>
    intro n u hn hanswer
    rw [hanswer] at hbecomes
    generalize (d.reply inquiry).2.store = t at hbecomes ⊢
    cases hbecomes with
    | created hn' hnew hu =>
      obtain rfl : n = _ := Option.some.inj (hn.symm.trans hn')
      exact idOf?_created_self hnew u
  case refused =>
    intro f hanswer
    rw [hanswer] at hbecomes
    generalize (d.reply inquiry).2.store = t at hbecomes ⊢
    cases hbecomes with
    | refused _ _ _ => exact ⟨rfl, rfl⟩
  case same =>
    intro hanswer
    rw [hanswer] at hbecomes
    generalize (d.reply inquiry).2.store = t at hbecomes ⊢
    cases hbecomes with
    | same => rfl

/-! ## A whole history -/

/-- The creations of names that are not mapped get the numbers behind the first one in turn, as
identifiers as long as the width has them.  At any point of the history the names that are mapped
are found, and stay mapped to what they are mapped to. -/
theorem numbers_used_up {width : Nat} (hwidth : isWidth width = true) (sequence : UInt64)
    (capacity : Nat) (policy : RetryPolicy) (inquiries : List Inquiry)
    (hroom : sequence.toNat +
      ((new (.empty width sequence) capacity policy).creations inquiries).length < 2 ^ 64) :
    let start := new (.empty width sequence) capacity policy
    (∀ k answer, (start.creations inquiries)[k]? = some answer →
      Gets width (sequence.toNat + k + 1) answer) ∧
    ∀ before after, inquiries = before ++ after →
      let d := (start.replies before).2
      (∀ n, (d.get n).1 = .ok (d.store.idOf? n)) ∧
      (∀ n u, d.store.idOf? n = some u → (d.getOrCreate n).1 = .ok u ∧
        (start.replies inquiries).2.store.idOf? n = some u) ∧
      ∀ inquiry rest, after = inquiry :: rest → d.Settles inquiry := by
  intro start
  have hstart : start.Counted sequence.toNat 0 := counted_new width sequence capacity policy
  change sequence.toNat + (start.creations inquiries).length < 2 ^ 64 at hroom
  refine ⟨fun k answer hk => hstart.gets hwidth hroom hk, ?_⟩
  rintro before after rfl d
  rw [creations_append, List.length_append] at hroom
  obtain ⟨hd, -⟩ := hstart.replies before (by omega)
  obtain ⟨-, hextends⟩ := hd.replies after (by omega)
  refine ⟨fun n => ?_, fun n u hu => ⟨?_, ?_⟩, fun inquiry _ _ => hd.settles (by omega) inquiry⟩
  · obtain ⟨d', heq, -⟩ := get_eq hd.mirrored n
    rw [heq]
  · exact hd.getOrCreate_mapped (by omega) hu
  · rw [replies_append]
    exact hextends.keeps hu

/-- The last two numbers of one octet, and a name that is too late for either. -/
def lastNumbers : List Inquiry :=
  [.getOrCreate "host", .get "web", .getOrCreate "web", .warm, .getOrCreate "db",
    .resolve .create "host", .getOrCreate "db", .get "web"]

theorem numbers_used_up_lastNumbers :
    let start := new (.empty 1 252) 1 {}
    (∀ k answer, (start.creations lastNumbers)[k]? = some answer → Gets 1 (252 + k + 1) answer) ∧
      (start.creations lastNumbers).length = 4 ∧
      (start.replies lastNumbers).2.store.pairs.length = 2 := by
  refine ⟨(numbers_used_up (by decide) 252 1 {} lastNumbers (by decide +kernel)).1, ?_, ?_⟩
  all_goals decide +kernel

end Dictionary

end StatRollup.Uid
