import Mathlib
import CircuitCache.Proofs.Checked

/-!
# Texts of signatures

A signature is determined by its text (`Signature.text_injective`): no name contains the bracket
that ends it, and no address the comma.  An error puts the texts of its signatures between
backquotes, which no such text contains, so they can be read off its message
(`CacheError.inBackquotes_message`).  A patch fails because of changed signatures only where a
mapping leads to an instruction of another kind or at other addresses
(`Store.PatchFails.exists_misleads`), and then the two texts differ.
-/

namespace CircuitCache

/-! ## Parts of texts -/

namespace Text

variable {c : Char} {xs xs' ys ys' : List Char} {before part : String}

theorem splitOn_append_cons (h : c ∉ xs) (ys : List Char) :
    (xs ++ c :: ys).splitOn c = xs :: ys.splitOn c := by
  have hxs : ∀ d ∈ xs, (d == c) = false :=
    fun d hd => beq_eq_false_iff_ne.2 fun hdc => h (hdc ▸ hd)
  exact List.splitOnP_append_cons_of_forall_mem hxs c (beq_self_eq_true c) ys

/-- Equal texts agree in what stands before the first stop and in what stands after it. -/
theorem append_stop_inj (hxs : c ∉ xs) (hxs' : c ∉ xs') (h : xs ++ c :: ys = xs' ++ c :: ys') :
    xs = xs' ∧ ys = ys' := by
  have hparts := congrArg (List.splitOn c) h
  rw [splitOn_append_cons hxs, splitOn_append_cons hxs'] at hparts
  obtain rfl := (List.cons.inj hparts).1
  exact ⟨rfl, (List.cons.inj (List.append_cancel_left h)).2⟩

/-- The second item, the fourth, and so on. -/
def everySecond {α : Type} : List α → List α
  | _ :: x :: rest => x :: everySecond rest
  | _ => []

theorem everySecond_modifyHead {α : Type} (f : α → α) (items : List α) :
    everySecond (items.modifyHead f) = everySecond items := by
  rcases items with _ | ⟨x, _ | ⟨y, rest⟩⟩ <;> rfl

/-- The parts of a text that stand between backquotes. -/
def inBackquotes (text : String) : List (List Char) :=
  everySecond (text.toList.splitOn '\x60')

theorem inBackquotes_append (h : '\x60' ∉ before.toList) (after : String) :
    inBackquotes (before ++ after) = inBackquotes after := by
  rw [inBackquotes, String.toList_append]
  generalize before.toList = cs at h ⊢
  induction cs with
  | nil => rfl
  | cons c cs ih =>
    have hc : (c == '\x60') = false := beq_eq_false_iff_ne.2 (List.ne_of_not_mem_cons h).symm
    rw [List.cons_append, List.splitOn, List.splitOnP_cons_eq_if_modifyHead, hc, if_neg (by decide),
      everySecond_modifyHead]
    exact ih (List.not_mem_of_not_mem_cons h)

theorem inBackquotes_part (h : '\x60' ∉ part.toList) (after : String) :
    inBackquotes ("\x60" ++ part ++ "\x60" ++ after) = part.toList :: inBackquotes after := by
  have htext : ("\x60" ++ part ++ "\x60" ++ after).toList =
      [] ++ '\x60' :: (part.toList ++ '\x60' :: after.toList) := by simp
  rw [inBackquotes, htext, splitOn_append_cons List.not_mem_nil, splitOn_append_cons h, everySecond,
    inBackquotes]

theorem inBackquotes_of_notMem (h : '\x60' ∉ part.toList) : inBackquotes part = [] := by
  rw [← String.append_empty (s := part), inBackquotes_append h]
  rfl

end Text

/-! ## Names -/

theorem Tag.name_injective : Function.Injective Tag.name := by
  intro a b h
  have htag := congrArg ofName? h
  rwa [ofName?_name, ofName?_name, Option.some.injEq] at htag

theorem Tag.all_isAlphanum_name (tag : Tag) : tag.name.toList.all Char.isAlphanum = true := by
  cases tag <;> decide

theorem Tag.notMem_name {c : Char} (h : c.isAlphanum = false) (tag : Tag) :
    c ∉ tag.name.toList := by
  intro hc
  rw [List.all_eq_true.1 tag.all_isAlphanum_name c hc] at h
  cases h

/-! ## Addresses -/

theorem notMem_toDigits {c : Char} (h : c.isDigit = false) (n : ℕ) : c ∉ Nat.toDigits 10 n := by
  intro hc
  rw [Nat.isDigit_of_mem_toDigits (by decide) (by decide) hc] at h
  cases h

theorem toDigits_toNat_injective {a b : Address}
    (h : Nat.toDigits 10 a.toNat = Nat.toDigits 10 b.toNat) : a = b := by
  have hnumber := congrArg (Nat.ofDigitChars 10 · 0) h
  rw [Nat.ofDigitChars_ten_toDigits, Nat.ofDigitChars_ten_toDigits] at hnumber
  exact UInt64.toNat_inj.1 hnumber

namespace Signature

theorem toList_addressList_singleton (a : Address) :
    (addressList [a]).toList = Nat.toDigits 10 a.toNat := Nat.toList_repr

theorem toList_addressList_cons (a b : Address) (as : List Address) :
    (addressList (a :: b :: as)).toList =
      Nat.toDigits 10 a.toNat ++ ',' :: ' ' :: (addressList (b :: as)).toList := by
  rw [addressList, String.toList_append, String.toList_append]
  · simp
  · simp

theorem toList_addressList_ne_nil (a : Address) (as : List Address) :
    (addressList (a :: as)).toList ≠ [] := by
  cases as with
  | nil => exact toList_addressList_singleton a ▸ Nat.toDigits_ne_nil
  | cons b as =>
    rw [toList_addressList_cons]
    exact List.append_ne_nil_of_left_ne_nil Nat.toDigits_ne_nil _

/-- A comma ends an address, and only the last one has none. -/
theorem addressList_injective : Function.Injective addressList := by
  have hcomma (a : Address) : ',' ∉ Nat.toDigits 10 a.toNat := notMem_toDigits rfl _
  intro as bs h
  replace h := congrArg String.toList h
  induction as generalizing bs with
  | nil =>
    cases bs with
    | nil => rfl
    | cons b bs => exact absurd h.symm (toList_addressList_ne_nil b bs)
  | cons a as ih =>
    cases bs with
    | nil => exact absurd h (toList_addressList_ne_nil a as)
    | cons b bs =>
      cases as with
      | nil =>
        cases bs with
        | nil =>
          rw [toList_addressList_singleton, toList_addressList_singleton] at h
          rw [toDigits_toNat_injective h]
        | cons b' bs =>
          rw [toList_addressList_singleton, toList_addressList_cons] at h
          exact absurd (h ▸ List.mem_append_right _ List.mem_cons_self) (hcomma a)
      | cons a' as =>
        cases bs with
        | nil =>
          rw [toList_addressList_singleton, toList_addressList_cons] at h
          exact absurd (h ▸ List.mem_append_right _ List.mem_cons_self) (hcomma b)
        | cons b' bs =>
          rw [toList_addressList_cons, toList_addressList_cons] at h
          obtain ⟨hdigits, hrest⟩ := Text.append_stop_inj (hcomma a) (hcomma b) h
          rw [toDigits_toNat_injective hdigits, ih (List.cons.inj hrest).2]

/-- Digits, commas and blanks are all there is between addresses. -/
theorem notMem_addressList {c : Char} (hdigit : c.isDigit = false) (hcomma : c ≠ ',')
    (hblank : c ≠ ' ') (as : List Address) : c ∉ (addressList as).toList := by
  induction as with
  | nil => exact List.not_mem_nil
  | cons a as ih =>
    cases as with
    | nil =>
      rw [toList_addressList_singleton]
      exact notMem_toDigits hdigit _
    | cons b as =>
      rw [toList_addressList_cons]
      simp [notMem_toDigits hdigit, hcomma, hblank, ih]

/-! ## Signatures -/

theorem toList_text (s : Signature) : s.text.toList =
    s.tag.name.toList ++ '[' :: ((addressList s.operands).toList ++ [']']) := by
  simp [text]

theorem text_injective : Function.Injective text := by
  intro s t h
  replace h := congrArg String.toList h
  rw [toList_text, toList_text] at h
  obtain ⟨hname, hrest⟩ :=
    Text.append_stop_inj (Tag.notMem_name rfl _) (Tag.notMem_name rfl _) h
  have htag := Tag.name_injective (String.toList_injective hname)
  have hoperands := addressList_injective
    (String.toList_injective (List.append_cancel_right hrest))
  cases s
  cases t
  rw [Signature.mk.injEq]
  exact ⟨htag, hoperands⟩

/-- An instruction and an operation have the same text exactly when they have the same kind and
touch the same addresses, which is what a patch compares. -/
theorem text_eq_text_iff {i : Instruction} {op : Operation} :
    i.signature.text = op.signature.text ↔ i.tag = op.tag ∧ i.operands = op.operands := by
  rw [text_injective.eq_iff, Instruction.signature, Operation.signature, Signature.mk.injEq]

theorem notMem_text (s : Signature) : '\x60' ∉ s.text.toList := by
  have hname : '\x60' ∉ s.tag.name.toList := Tag.notMem_name rfl _
  have haddresses : '\x60' ∉ (addressList s.operands).toList := notMem_addressList rfl
    (by decide) (by decide) _
  rw [toList_text]
  simp [hname, haddresses]

end Signature

/-! ## Messages -/

/-- The signatures that a mismatch carries, in the order of its message. -/
def Mismatch.signatures : Mismatch → List Signature
  | extraInstruction s _ => [s]
  | missingInstruction s _ => [s]
  | signatureChanged _ _ expected found => [found, expected]
  | _ => []

/-- The signatures that an error carries, in the order of its message. -/
def CacheError.signatures : CacheError → List Signature
  | structuralMismatch _ reason => reason.signatures
  | arityMismatch _ _ s _ _ => [s]
  | _ => []

open Text

/-- The keys of a changed structure stand between backquotes too, but it carries no signatures. -/
theorem Mismatch.inBackquotes_message {reason : Mismatch} (h : reason.signatures ≠ []) :
    inBackquotes reason.message = reason.signatures.map fun s => s.text.toList := by
  have hdigits (n : ℕ) : '\x60' ∉ Nat.toDigits 10 n := notMem_toDigits rfl n
  cases reason with
  | extraInstruction s position =>
    have hmessage : (extraInstruction s position).message = "compiled job has an extra " ++
        ("\x60" ++ s.text ++ "\x60" ++ (" instruction at position " ++ toString position)) := by
      unfold message
      exact String.toList_injective (by simp)
    rw [hmessage, inBackquotes_append (by simp), inBackquotes_part s.notMem_text,
      inBackquotes_of_notMem (by simp [hdigits])]
    rfl
  | missingInstruction s operation =>
    have hmessage : (missingInstruction s operation).message =
        ("program operation " ++ toString operation ++ " (") ++
          ("\x60" ++ s.text ++ "\x60" ++ ") has no compiled counterpart") := by
      unfold message
      exact String.toList_injective (by simp)
    rw [hmessage, inBackquotes_append (by simp [hdigits]), inBackquotes_part s.notMem_text,
      inBackquotes_of_notMem (by simp)]
    rfl
  | signatureChanged instruction operation expected found =>
    have hmessage : (signatureChanged instruction operation expected found).message =
        ("instruction " ++ toString instruction ++ " is ") ++
          ("\x60" ++ found.text ++ "\x60" ++
            ((" but mapped operation " ++ toString operation ++ " is ") ++
              ("\x60" ++ expected.text ++ "\x60" ++ ""))) := by
      unfold message
      exact String.toList_injective (by simp)
    rw [hmessage, inBackquotes_append (by simp [hdigits]), inBackquotes_part found.notMem_text,
      inBackquotes_append (by simp [hdigits]), inBackquotes_part expected.notMem_text,
      inBackquotes_of_notMem (by simp)]
    rfl
  | _ => exact absurd rfl h

/-- The parts of a message that stand between backquotes are the texts of the signatures. -/
theorem CacheError.inBackquotes_message {e : CacheError} (h : e.signatures ≠ []) :
    inBackquotes e.message = e.signatures.map fun s => s.text.toList := by
  have hdigits (n : ℕ) : '\x60' ∉ Nat.toDigits 10 n := notMem_toDigits rfl n
  cases e with
  | structuralMismatch slot reason =>
    have hmessage : (structuralMismatch slot reason).message =
        ("structural mismatch in slot " ++ toString slot ++ ": ") ++ reason.message := rfl
    rw [hmessage, inBackquotes_append (by simp [hdigits])]
    exact Mismatch.inBackquotes_message h
  | arityMismatch slot instruction s compiled expected =>
    have hmessage : (arityMismatch slot instruction s compiled expected).message =
        ("parameter arity mismatch in slot " ++ toString slot ++ " at instruction "
          ++ toString instruction ++ " (") ++ ("\x60" ++ s.text ++ "\x60" ++
            ("): compiled form has " ++ toString compiled ++ ", program has " ++
              toString expected)) := by
      unfold message
      exact String.toList_injective (by simp)
    rw [hmessage, inBackquotes_append (by simp [hdigits]), inBackquotes_part s.notMem_text,
      inBackquotes_of_notMem (by simp [hdigits])]
    rfl
  | _ => exact absurd rfl h

/-- Errors that carry signatures and read the same carry the same signatures. -/
theorem CacheError.signatures_eq_of_message_eq {e e' : CacheError} (he : e.signatures ≠ [])
    (he' : e'.signatures ≠ []) (h : e.message = e'.message) : e.signatures = e'.signatures := by
  have htexts := congrArg inBackquotes h
  rw [inBackquotes_message he, inBackquotes_message he'] at htexts
  have hinjective : Function.Injective fun s : Signature => s.text.toList :=
    fun _ _ hst => Signature.text_injective (String.toList_injective hst)
  exact hinjective.list_map htexts

/-! ## Patches -/

/-- An entry of a mapping leads from an operation to an instruction of another kind or at other
addresses.  The operation is the one that is expected. -/
def Mapping.Misleads (m : Mapping) (sub : SubJob) (p : Program) (e : Entry)
    (expected found : Signature) : Prop :=
  e ∈ m.entries ∧ ∃ i op, sub.instructions[e.instruction]? = some i ∧
    p.unrolled[e.operation]? = some op ∧ found = i.signature ∧ expected = op.signature ∧
    ¬(i.tag = op.tag ∧ i.operands = op.operands)

theorem Mapping.Misleads.text_ne {m : Mapping} {sub : SubJob} {p : Program} {e : Entry}
    {expected found : Signature} (h : m.Misleads sub p e expected found) :
    expected.text ≠ found.text := by
  obtain ⟨-, i, op, -, -, rfl, rfl, hdiffer⟩ := h
  rw [← Signature.text_eq_text_iff] at hdiffer
  exact Ne.symm hdiffer

section SignatureChanged

variable {slot n i o index : ℕ} {expected found : Signature} {s : Store} {ps : List Program}

theorem Mapping.misleads_of_firstFault? {m : Mapping} {sub : SubJob} {p : Program}
    (h : m.firstFault? slot sub p =
      some (.structuralMismatch n (.signatureChanged i o expected found))) :
    n = slot ∧ m.Misleads sub p ⟨i, o⟩ expected found := by
  obtain ⟨e, he, hfault⟩ := List.exists_of_findSome?_eq_some h
  unfold entryFault? at hfault
  split at hfault
  · simp at hfault
  · simp at hfault
  · next ins op hins hop =>
    split_ifs at hfault with hsignature harity
    · simp only [Option.some.injEq, CacheError.structuralMismatch.injEq,
        Mismatch.signatureChanged.injEq] at hfault
      obtain ⟨rfl, rfl, rfl, rfl, rfl⟩ := hfault
      refine ⟨rfl, he, ins, op, hins, hop, rfl, rfl, ?_⟩
      rwa [← Signature.text_eq_text_iff, Signature.text_injective.eq_iff]
    · simp at hfault

/-- The check of a batch fails so only for an entry of the slot that the error names. -/
theorem Chunk.misleads_of_checkSlots {ss : List SubJob} {ms : List Mapping} {ks : List Key}
    (h : checkSlots slot ss ms ks ps =
      .error (.structuralMismatch n (.signatureChanged i o expected found))) :
    ∃ k sub m p, n = slot + k ∧ ss[k]? = some sub ∧ ms[k]? = some m ∧ ps[k]? = some p ∧
      m.Misleads sub p ⟨i, o⟩ expected found := by
  induction ss generalizing slot ms ks ps with
  | nil => simp [checkSlots] at h
  | cons sub ss ih =>
    obtain _ | ⟨m, ms⟩ := ms
    · simp [checkSlots] at h
    obtain _ | ⟨p, ps⟩ := ps
    · simp [checkSlots] at h
    have hlater {ks : List Key} (hrest : checkSlots (slot + 1) ss ms ks ps =
        .error (.structuralMismatch n (.signatureChanged i o expected found))) :
        ∃ k sub' m' p', n = slot + k ∧ (sub :: ss)[k]? = some sub' ∧ (m :: ms)[k]? = some m' ∧
          (p :: ps)[k]? = some p' ∧ m'.Misleads sub' p' ⟨i, o⟩ expected found := by
      obtain ⟨k, sub', m', p', hn, hk⟩ := ih hrest
      exact ⟨k + 1, sub', m', p', by omega, hk⟩
    simp only [checkSlots] at h
    split at h
    · next e hfault =>
      obtain rfl := Except.error.inj h
      obtain ⟨rfl, hmisleads⟩ := Mapping.misleads_of_firstFault? hfault
      exact ⟨0, sub, m, p, rfl, rfl, rfl, rfl, hmisleads⟩
    · split at h
      · exact hlater h
      · split_ifs at h with hkey
        · exact hlater h
        · simp at h

/-- A patch of a chunk with the programs fails, whether in the mode of the store, in a copy or in
place. -/
def Store.PatchFails (s : Store) (index : ℕ) (ps : List Program) (e : CacheError) : Prop :=
  (s.patch index ps).1 = .error e ∨ (s.patchCopy index ps).1 = .error e ∨
    (s.patchInPlace index ps).1 = .error e

theorem Store.patchFails_iff {e : CacheError} :
    s.PatchFails index ps e ↔ (s.patchCopy index ps).1 = .error e := by
  have hinPlace : (s.patchInPlace index ps).1 = .error e ↔ (s.patchCopy index ps).1 = .error e := by
    rw [← map_owned_patchInPlace]
    rcases (s.patchInPlace index ps).1 with e' | r <;> simp [Except.map]
  rw [PatchFails, hinPlace]
  rcases s.patch_cases index ps with h | h
  · rw [h, or_self, or_self]
  · rw [h, hinPlace, or_self, or_self]

theorem Store.PatchFails.exists_misleads
    (h : s.PatchFails index ps (.structuralMismatch slot (.signatureChanged i o expected found))) :
    ∃ c sub m p, s.chunk? index = some c ∧ c.job.subJobs[slot]? = some sub ∧
      c.mappings[slot]? = some m ∧ ps[slot]? = some p ∧ m.Misleads sub p ⟨i, o⟩ expected found := by
  rw [patchFails_iff, patchCopy] at h
  split at h
  · simp at h
  · next c hc =>
    rcases hpatch : c.patchCopy index ps with e | subJobs
    · rw [hpatch] at h
      obtain rfl := Except.error.inj h
      unfold Chunk.patchCopy at hpatch
      split_ifs at hpatch with hcount
      · simp at hpatch
      · simp only [Chunk.checkSlots_take] at hpatch
        split at hpatch
        · next e hcheck =>
          obtain rfl := Except.error.inj hpatch
          obtain ⟨k, sub, m, p, hk, hsub, hm, hp, hmisleads⟩ := Chunk.misleads_of_checkSlots hcheck
          obtain rfl : slot = k := hk.trans (Nat.zero_add k)
          exact ⟨c, sub, m, p, hc, hsub, hm, hp, hmisleads⟩
        · simp at hpatch
    · rw [hpatch] at h
      simp at h

end SignatureChanged

/-! ## Unambiguous texts -/

/-- Signatures with the same text are the same, and those of an instruction and an operation have it
exactly when kind and addresses agree.  A patch that fails because of changed signatures names an
operation and an instruction where they do not, with two texts that differ.  Errors that carry
signatures and read the same carry the same signatures. -/
theorem signature_of_text :
    (∀ s t : Signature, s.text = t.text ↔ s = t) ∧
    (∀ (i : Instruction) (op : Operation), i.signature.text = op.signature.text ↔
      i.tag = op.tag ∧ i.operands = op.operands) ∧
    (∀ (s : Store) (index : ℕ) (ps : List Program) (slot i o : ℕ) (expected found : Signature),
      s.PatchFails index ps (.structuralMismatch slot (.signatureChanged i o expected found)) →
      expected.text ≠ found.text ∧ ∃ c sub m p, s.chunk? index = some c ∧
        c.job.subJobs[slot]? = some sub ∧ c.mappings[slot]? = some m ∧ ps[slot]? = some p ∧
        m.Misleads sub p ⟨i, o⟩ expected found) ∧
    ∀ e e' : CacheError, e.signatures ≠ [] → e'.signatures ≠ [] → e.message = e'.message →
      e.signatures = e'.signatures := by
  refine ⟨fun s t => Signature.text_injective.eq_iff, fun i op => Signature.text_eq_text_iff,
    fun s index ps slot i o expected found h => ?_,
    fun e e' => CacheError.signatures_eq_of_message_eq⟩
  obtain ⟨c, sub, m, p, hc, hsub, hm, hp, hmisleads⟩ := h.exists_misleads
  exact ⟨hmisleads.text_ne, c, sub, m, p, hc, hsub, hm, hp, hmisleads⟩

/-- The second slot refuses the rotation of another address, and the error would read otherwise for
that of addresses one and zero. -/
theorem Example.texts_of_movedRotation :
    rotationStore.PatchFails 0 [otherRotation, movedRotation]
      (.structuralMismatch 1 (.signatureChanged 0 0 ⟨.rz, [1]⟩ ⟨.rz, [0]⟩)) ∧
    Signature.text ⟨.rz, [1]⟩ ≠ Signature.text ⟨.rz, [0]⟩ ∧
    CacheError.message (.structuralMismatch 1 (.signatureChanged 0 0 ⟨.rz, [1]⟩ ⟨.rz, [0]⟩)) ≠
      CacheError.message (.structuralMismatch 1 (.signatureChanged 0 0 ⟨.rz, [1, 0]⟩ ⟨.rz, [0]⟩)) := by
  have hfails : rotationStore.PatchFails 0 [otherRotation, movedRotation]
      (.structuralMismatch 1 (.signatureChanged 0 0 ⟨.rz, [1]⟩ ⟨.rz, [0]⟩)) := by
    refine .inr (.inr ?_)
    decide +kernel
  obtain ⟨-, -, hpatch, hmessage⟩ := signature_of_text
  refine ⟨hfails, (hpatch _ _ _ _ _ _ _ _ hfails).1, fun hsame => ?_⟩
  have hsignatures := hmessage _ _ (by decide) (by decide) hsame
  exact absurd hsignatures (by decide)

end CircuitCache
