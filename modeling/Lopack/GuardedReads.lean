-- A callback asks for the address and the type string of a message, then reads its
-- arguments. The question is when `checkAddressAndTypes` makes all of its reads safe.
import Lopack.TypedAccess

namespace osc

/-! ## One access -/

/-- No accessor gives a value on a tag that is not its own: `asBlob` misreads there. -/
theorem as_ne_ok_of_tag_not_mem {msg : ReceivedMessage} {at' : Nat} {acc : As}
    (h : msg.typeTag at' ∉ acc.tags) (v : Value) : msg.as at' acc ≠ .ok v := by
  by_cases hacc : acc = .asBlob
  · subst hacc
    cases harg : msg.m_message.argv[at']? with
    | none => simp [asBlob_of_out_of_range (List.getElem?_eq_none_iff.mp harg)]
    | some a =>
      rw [ReceivedMessage.typeTag_of_arg harg] at h
      simp [asBlob_of_other harg (by simpa [As.tags] using h)]
  · simp [as_of_tag_not_mem hacc h]

/-- An accessor gives a value exactly where it is the accessor for the argument, and then the
value is that of the argument. -/
theorem as_ok_iff {msg : ReceivedMessage} {at' : Nat} {acc : As} {v : Value} :
    msg.as at' acc = .ok v ↔
      ∃ a, msg.m_message.argv[at']? = some a ∧ a.accessor = some acc ∧ a.read = some v := by
  constructor
  · intro h
    have htag : msg.typeTag at' ∈ acc.tags :=
      not_not.mp (fun hmem => as_ne_ok_of_tag_not_mem hmem v h)
    cases harg : msg.m_message.argv[at']? with
    | none =>
      rw [typeTag_of_out_of_range (List.getElem?_eq_none_iff.mp harg)] at htag
      exact absurd htag (star_not_mem_tags acc)
    | some a =>
      rw [ReceivedMessage.typeTag_of_arg harg, type_mem_tags_iff] at htag
      obtain ⟨w, hw, has⟩ := as_of_accessor harg htag
      rw [h] at has
      cases has
      exact ⟨a, rfl, htag, hw⟩
  · rintro ⟨a, ha, hacc, hread⟩
    obtain ⟨w, hw, has⟩ := as_of_accessor ha hacc
    rw [hread] at hw
    cases hw
    exact has

/-! ## The reads of a callback -/

/-- A read: an index and the accessor that is called on it. -/
structure Read where
  at' : Nat
  acc : As
deriving DecidableEq, Repr

/-- The reads of a callback in their order. The first one that fails ends it. -/
def ReceivedMessage.readAll (msg : ReceivedMessage) : List Read → Access (List Value)
  | [] => .ok []
  | r :: rest => do
    let v ← msg.as r.at' r.acc
    let vs ← msg.readAll rest
    pure (v :: vs)

/-- The type string has a tag of the accessor at the index. -/
def Read.Fits (types : List Char) (r : Read) : Prop :=
  ∃ tag ∈ r.acc.tags, types[r.at']? = some tag

instance (types : List Char) (r : Read) : Decidable (r.Fits types) :=
  inferInstanceAs (Decidable (∃ tag ∈ r.acc.tags, types[r.at']? = some tag))

/-- The read gives the value of the argument at its index. -/
def Read.Gives (msg : ReceivedMessage) (r : Read) (v : Value) : Prop :=
  ∃ a, msg.m_message.argv[r.at']? = some a ∧ a.accessor = some r.acc ∧ a.read = some v

theorem readAll_ok_iff {msg : ReceivedMessage} {reads : List Read} {vs : List Value} :
    msg.readAll reads = .ok vs ↔ List.Forall₂ (Read.Gives msg) reads vs := by
  induction reads generalizing vs with
  | nil => simp [ReceivedMessage.readAll, eq_comm]
  | cons r rest ih =>
    rw [List.forall₂_cons_left_iff]
    constructor
    · intro h
      cases hv : msg.as r.at' r.acc with
      | error e => simp [ReceivedMessage.readAll, hv, bind, Except.bind] at h
      | ok v =>
        cases hvs : msg.readAll rest with
        | error e => simp [ReceivedMessage.readAll, hv, hvs, bind, Except.bind] at h
        | ok ws =>
          simp only [ReceivedMessage.readAll, hv, hvs, bind, Except.bind, pure, Except.pure,
            Except.ok.injEq] at h
          exact ⟨v, ws, as_ok_iff.mp hv, ih.mp hvs, h.symm⟩
    · rintro ⟨v, ws, hv, hws, rfl⟩
      simp [ReceivedMessage.readAll, as_ok_iff.mpr hv, ih.mpr hws, bind, Except.bind, pure,
        Except.pure]

/-- All reads give a value exactly when each of them does. -/
theorem exists_gives_iff {msg : ReceivedMessage} {reads : List Read} :
    (∃ vs, List.Forall₂ (Read.Gives msg) reads vs) ↔ ∀ r ∈ reads, ∃ v, r.Gives msg v := by
  induction reads with
  | nil => simp
  | cons r rest ih =>
    rw [List.forall_mem_cons, ← ih]
    constructor
    · rintro ⟨vs, hvs⟩
      obtain ⟨v, ws, hv, hws, -⟩ := List.forall₂_cons_left_iff.mp hvs
      exact ⟨⟨v, hv⟩, ws, hws⟩
    · rintro ⟨⟨v, hv⟩, ws, hws⟩
      exact ⟨v :: ws, .cons hv hws⟩

/-! ## Under the check -/

theorem checkAddressAndTypes_iff {msg : ReceivedMessage} {address : Str} {types : List Char} :
    msg.checkAddressAndTypes address types = true ↔
      address = msg.m_addressPattern ∧ types = msg.m_message.argv.map lo_arg.type := by
  simp [ReceivedMessage.checkAddressAndTypes, ReceivedMessage.types]

/-- On a message with the type string, a read fits exactly when it gives a value. -/
theorem Read.fits_iff_gives {msg : ReceivedMessage} (r : Read) :
    r.Fits (msg.m_message.argv.map lo_arg.type) ↔ ∃ v, r.Gives msg v := by
  constructor
  · rintro ⟨tag, htag, hat⟩
    rw [List.getElem?_map, Option.map_eq_some_iff] at hat
    obtain ⟨a, ha, rfl⟩ := hat
    have hacc := (type_mem_tags_iff a r.acc).mp htag
    obtain ⟨v, hv, -⟩ := as_of_accessor ha hacc
    exact ⟨v, a, ha, hacc, hv⟩
  · rintro ⟨v, a, ha, hacc, -⟩
    exact ⟨a.type, (type_mem_tags_iff a r.acc).mpr hacc, by simp [ha]⟩

/-- The tags of liblo's arguments. -/
def typeTags : List Char :=
  ['T', 'F', 'c', 'N', 'I', 'i', 'h', 'f', 'd', 's', 'S', 'm', 't', 'b']

theorem exists_arg_of_mem_typeTags {tag : Char} (h : tag ∈ typeTags) :
    ∃ a : lo_arg, a.type = tag := by
  simp only [typeTags, List.mem_cons, List.not_mem_nil, or_false] at h
  rcases h with rfl | rfl | rfl | rfl | rfl | rfl | rfl | rfl | rfl | rfl | rfl | rfl | rfl | rfl
  · exact ⟨.T, rfl⟩
  · exact ⟨.F, rfl⟩
  · exact ⟨.c 0, rfl⟩
  · exact ⟨.N, rfl⟩
  · exact ⟨.I, rfl⟩
  · exact ⟨.i 0, rfl⟩
  · exact ⟨.h 0, rfl⟩
  · exact ⟨.f 0, rfl⟩
  · exact ⟨.d 0, rfl⟩
  · exact ⟨.s (cStr []), rfl⟩
  · exact ⟨.S (cStr []), rfl⟩
  · exact ⟨.m ⟨0, 0, 0, 0⟩, rfl⟩
  · exact ⟨.t LO_TT_IMMEDIATE, rfl⟩
  · exact ⟨.b ⟨[], by decide⟩, rfl⟩

/-- Every string of these tags is the type string of a message. -/
theorem exists_args_of_types {types : List Char} (h : ∀ tag ∈ types, tag ∈ typeTags) :
    ∃ args : List lo_arg, args.map lo_arg.type = types := by
  induction types with
  | nil => exact ⟨[], rfl⟩
  | cons tag rest ih =>
    obtain ⟨a, ha⟩ := exists_arg_of_mem_typeTags (h tag List.mem_cons_self)
    obtain ⟨args, hargs⟩ := ih (fun t ht => h t (List.mem_cons_of_mem tag ht))
    exact ⟨a :: args, by simp [ha, hargs]⟩

/-- The reads of a callback after `checkAddressAndTypes` are safe on every message exactly when
each fits the type string: none throws and none reads an argument as another type, `asBlob`
included. What they give are the values of the arguments. -/
theorem checked_reads_are_safe_iff_they_fit (address : Str) (types : List Char)
    (reads : List Read) (htypes : ∀ tag ∈ types, tag ∈ typeTags) :
    (∀ msg : ReceivedMessage, msg.checkAddressAndTypes address types = true →
      ∃ vs, msg.readAll reads = .ok vs ∧ List.Forall₂ (Read.Gives msg) reads vs) ↔
      ∀ r ∈ reads, r.Fits types := by
  constructor
  · intro hsafe r hr
    -- some message has the type string, so the check does pass somewhere
    obtain ⟨args, rfl⟩ := exists_args_of_types htypes
    obtain ⟨vs, -, hvs⟩ := hsafe ⟨address, ⟨args, LO_TT_IMMEDIATE⟩⟩
      (checkAddressAndTypes_iff.mpr ⟨rfl, rfl⟩)
    exact (Read.fits_iff_gives r).mpr (exists_gives_iff.mp ⟨vs, hvs⟩ r hr)
  · intro hfits msg hcheck
    obtain ⟨-, rfl⟩ := checkAddressAndTypes_iff.mp hcheck
    obtain ⟨vs, hvs⟩ := exists_gives_iff.mpr
      (fun r hr => (Read.fits_iff_gives r).mp (hfits r hr))
    exact ⟨vs, readAll_ok_iff.mpr hvs, hvs⟩

/-- The reads of `TestReceiver::process` on "/test3". It skips nil and infinitum. -/
def test3Reads : List Read :=
  [⟨0, .asBool⟩, ⟨1, .asBool⟩, ⟨2, .asChar⟩, ⟨5, .asInt32⟩, ⟨6, .asInt64⟩, ⟨7, .asFloat⟩,
    ⟨8, .asDouble⟩, ⟨9, .asString⟩, ⟨10, .asSymbol⟩, ⟨11, .asMidiMessage⟩, ⟨12, .asTimeTag⟩,
    ⟨12, .asTimeTag⟩, ⟨13, .asBlob⟩]

/-- The test receiver's reads fit its type string, so they are safe. -/
theorem the_reads_of_test3_are_safe :
    (∀ r ∈ test3Reads, r.Fits typeTags) ∧
      ∀ msg : ReceivedMessage,
        msg.checkAddressAndTypes [47, 116, 101, 115, 116, 51] typeTags = true →
        ∃ vs, msg.readAll test3Reads = .ok vs ∧
          List.Forall₂ (Read.Gives msg) test3Reads vs := by
  have hfits : ∀ r ∈ test3Reads, r.Fits typeTags := by
    simp [test3Reads, typeTags, Read.Fits, As.tags]
  refine ⟨hfits, ?_⟩
  exact (checked_reads_are_safe_iff_they_fit _ typeTags test3Reads (fun _ h => h)).mpr hfits

end osc
