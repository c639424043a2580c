import Mathlib.Algebra.Group.Nat.Defs
import ObjectLayout.Storage.Codec

/-! Codecs that lose nothing. Such a codec reads back what it has written, whatever follows, and it
reads nothing that it would have written otherwise. The rules are those of the ways in which codecs
are put together; a number is exact below the bound of its width, a text or a list as long as its
length is. -/
namespace ObjectLayout.Codec

variable {α β : Type}

def Returns (c : Codec α) (a : α) : Prop := ∀ rest, c.read (c.write a ++ rest) = .ok (a, rest)

structure Exact (c : Codec α) (fits : α → Prop) : Prop where
  returns : ∀ {a}, fits a → c.Returns a
  spells : ∀ {data a rest}, c.read data = .ok (a, rest) → fits a ∧ data = c.write a ++ rest

theorem readThen {x : Read α} {data mid : Bytes} {a : α} (first : x data = .ok (a, mid))
    (f : α → Read β) : (x >>= f) data = f a mid := by
  simp only [bind, StateT.bind, first, Except.bind]

theorem readBind {x : Read α} {f : α → Read β} {data rest : Bytes} {b : β} :
    (x >>= f) data = .ok (b, rest) ↔
      ∃ a mid, x data = .ok (a, mid) ∧ f a mid = .ok (b, rest) := by
  constructor
  · intro read
    simp only [bind, StateT.bind, Except.bind] at read
    cases first : x data with
    | error e => simp [first] at read
    | ok pair =>
      rw [first] at read
      exact ⟨pair.1, pair.2, rfl, read⟩
  · rintro ⟨a, mid, first, next⟩
    rw [readThen first, next]

theorem readPure {a b : α} {data rest : Bytes} :
    (pure a : Read α) data = .ok (b, rest) ↔ b = a ∧ rest = data := by
  have answer : (pure a : Read α) data = .ok (a, data) := rfl
  rw [answer, Except.ok.injEq, Prod.mk.injEq, eq_comm, @eq_comm _ data]

theorem readByteSome {data rest : Bytes} {b : UInt8} :
    readByte data = .ok (b, rest) ↔ data = b :: rest := by
  cases data with
  | nil => simp [readByte]
  | cons c data => simp [readByte]

theorem exactByte : Exact byte (fun _ => True) :=
  ⟨fun _ _ => rfl, fun read => ⟨trivial, readByteSome.mp read⟩⟩

theorem mapReturns {c : Codec α} {make : α → β} {parts : β → α} {b : β}
    (h : c.Returns (parts b)) (rebuilds : make (parts b) = b) : (c.map make parts).Returns b := by
  intro rest
  refine (readThen (h rest) _).trans ?_
  rw [rebuilds]
  rfl

theorem exactMap {c : Codec α} {fits : α → Prop} (h : Exact c fits) {make : α → β} {parts : β → α}
    (rebuilds : ∀ b, make (parts b) = b) (splits : ∀ a, fits a → parts (make a) = a) :
    Exact (c.map make parts) (fun b => fits (parts b)) := by
  constructor
  · intro b fit
    exact mapReturns (h.returns fit) (rebuilds b)
  · intro data b rest read
    obtain ⟨a, mid, first, last⟩ := readBind.mp read
    obtain ⟨rfl, rfl⟩ := readPure.mp last
    obtain ⟨fit, same⟩ := h.spells first
    simp only [map, splits a fit]
    exact ⟨fit, same⟩

theorem pairReturns {c : Codec α} {d : Codec β} {a : α} {b : β} (h : c.Returns a)
    (k : d.Returns b) : (c.pair d).Returns (a, b) := by
  intro rest
  simp only [pair, List.append_assoc]
  rw [readThen (h _), readThen (k rest)]
  rfl

theorem exactPair {c : Codec α} {d : Codec β} {fits : α → Prop} {suits : β → Prop}
    (h : Exact c fits) (k : Exact d suits) :
    Exact (c.pair d) (fun p => fits p.1 ∧ suits p.2) := by
  constructor
  · rintro ⟨a, b⟩ ⟨fit, suit⟩
    exact pairReturns (h.returns fit) (k.returns suit)
  · rintro data ⟨a, b⟩ rest read
    obtain ⟨a', mid, first, next⟩ := readBind.mp read
    obtain ⟨b', last, second, done⟩ := readBind.mp next
    obtain ⟨same, rfl⟩ := readPure.mp done
    cases same
    obtain ⟨fit, front⟩ := h.spells first
    obtain ⟨suit, back⟩ := k.spells second
    refine ⟨⟨fit, suit⟩, ?_⟩
    simp only [pair, List.append_assoc, front, back]

theorem exactNat (width : Nat) : Exact (nat width) (fun n => n < 256 ^ width) := by
  constructor
  · intro n fit rest
    simp only [nat]
    induction width generalizing n with
    | zero =>
      have zero : n = 0 := by omega
      rw [zero]
      rfl
    | succ width ih =>
      have high : n / 256 < 256 ^ width := Nat.div_lt_of_lt_mul (by rwa [Nat.pow_succ'] at fit)
      have low : (UInt8.ofNat n).toNat = n % 256 := UInt8.toNat_ofNat'
      have first : readByte (writeNat (width + 1) n ++ rest) =
          .ok (UInt8.ofNat n, writeNat width (n / 256) ++ rest) := rfl
      simp only [readNat]
      rw [readThen first, readThen (ih high), low, Nat.mod_add_div]
      rfl
  · intro data n rest read
    simp only [nat] at read ⊢
    induction width generalizing data n with
    | zero =>
      obtain ⟨rfl, rfl⟩ := readPure.mp read
      exact ⟨Nat.one_pos, rfl⟩
    | succ width ih =>
      obtain ⟨low, mid, first, next⟩ := readBind.mp read
      obtain ⟨high, last, second, done⟩ := readBind.mp next
      obtain ⟨rfl, rfl⟩ := readPure.mp done
      obtain ⟨fit, back⟩ := ih second
      have below := low.toNat_lt
      have digit : UInt8.ofNat (low.toNat + 256 * high) = low := by
        apply UInt8.toNat_inj.mp
        rw [UInt8.toNat_ofNat']
        omega
      have others : (low.toNat + 256 * high) / 256 = high := by omega
      refine ⟨by rw [Nat.pow_succ']; omega, ?_⟩
      rw [readByteSome.mp first, back, writeNat, digit, others]
      rfl

theorem exactWord32 : Exact word32 (fun n => n < UInt32.size) := exactNat 4

theorem exactWord64 : Exact word64 (fun _ => True) := by
  have exact64 : Exact word64 (fun w => w.toNat < UInt64.size) :=
    exactMap (exactNat 8) (fun w => UInt64.ofNat_toNat) (fun n fit => UInt64.toNat_ofNat_of_lt' fit)
  exact ⟨fun {w} _ => exact64.returns w.toNat_lt,
    fun read => ⟨trivial, (exact64.spells read).2⟩⟩

theorem exactInt64 : Exact int64 (fun _ => True) :=
  exactMap exactWord64 (fun i => Int64.toInt64_toUInt64 i) (fun w _ => UInt64.toUInt64_toInt64 w)

theorem exactBool : Exact bool (fun _ => True) := by
  constructor
  · intro b _ rest
    cases b <;> rfl
  · intro data b rest read
    refine ⟨trivial, ?_⟩
    obtain ⟨mark, mid, first, last⟩ := readBind.mp read
    rw [readByteSome.mp first]
    split at last
    · obtain ⟨rfl, rfl⟩ := readPure.mp last
      rfl
    · obtain ⟨rfl, rfl⟩ := readPure.mp last
      rfl
    · contradiction

theorem exactOption {c : Codec α} {fits : α → Prop} (h : Exact c fits) :
    Exact (option c) (fun o => ∀ a ∈ o, fits a) := by
  constructor
  · intro o fit rest
    cases o with
    | none => rfl
    | some a =>
      have mark : readByte (1 :: (c.write a ++ rest)) = .ok (1, c.write a ++ rest) := rfl
      exact (readThen mark _).trans (readThen (h.returns (fit a rfl) rest) _)
  · intro data o rest read
    obtain ⟨mark, mid, first, last⟩ := readBind.mp read
    rw [readByteSome.mp first]
    split at last
    · obtain ⟨rfl, rfl⟩ := readPure.mp last
      exact ⟨by simp, rfl⟩
    · obtain ⟨a, mid, second, done⟩ := readBind.mp last
      obtain ⟨rfl, rfl⟩ := readPure.mp done
      obtain ⟨fit, same⟩ := h.spells second
      exact ⟨by simpa using fit, congrArg (_ :: ·) same⟩
    · contradiction

theorem timesReturn {c : Codec α} {xs : List α} (each : ∀ a ∈ xs, c.Returns a) (rest : Bytes) :
    readTimes c xs.length (xs.flatMap c.write ++ rest) = .ok (xs, rest) := by
  induction xs with
  | nil => rfl
  | cons a xs ih =>
    simp only [List.length_cons, readTimes, List.flatMap_cons, List.append_assoc]
    rw [readThen (each a List.mem_cons_self _),
      readThen (ih (fun b member => each b (List.mem_cons_of_mem a member)))]
    rfl

theorem timesSpell {c : Codec α} {fits : α → Prop} (h : Exact c fits) {n : Nat} {data rest : Bytes}
    {xs : List α} (read : readTimes c n data = .ok (xs, rest)) :
    xs.length = n ∧ (∀ a ∈ xs, fits a) ∧ data = xs.flatMap c.write ++ rest := by
  induction n generalizing data xs with
  | zero =>
    obtain ⟨rfl, rfl⟩ := readPure.mp read
    simp
  | succ n ih =>
    obtain ⟨a, mid, first, next⟩ := readBind.mp read
    obtain ⟨others, last, second, done⟩ := readBind.mp next
    obtain ⟨rfl, rfl⟩ := readPure.mp done
    obtain ⟨fit, front⟩ := h.spells first
    obtain ⟨length, fits, back⟩ := ih second
    refine ⟨by rw [List.length_cons, length], List.forall_mem_cons.mpr ⟨fit, fits⟩, ?_⟩
    simp only [List.flatMap_cons, List.append_assoc, front, back]

def ListFits (fits : α → Prop) (xs : List α) : Prop := xs.length < UInt64.size ∧ ∀ a ∈ xs, fits a

instance (fits : α → Prop) [DecidablePred fits] : DecidablePred (ListFits fits) :=
  fun _ => inferInstanceAs (Decidable (_ ∧ _))

theorem listReturns {c : Codec α} {xs : List α} (few : xs.length < UInt64.size)
    (each : ∀ a ∈ xs, c.Returns a) : (list c).Returns xs := by
  intro rest
  have count := (exactNat 8).returns few (xs.flatMap c.write ++ rest)
  simp only [list, List.append_assoc]
  exact (readThen count _).trans (timesReturn each rest)

theorem exactList {c : Codec α} {fits : α → Prop} (h : Exact c fits) :
    Exact (list c) (ListFits fits) := by
  constructor
  · intro xs fit
    exact listReturns fit.1 (fun a member => h.returns (fit.2 a member))
  · intro data xs rest read
    obtain ⟨n, mid, first, second⟩ := readBind.mp read
    obtain ⟨bound, front⟩ := (exactNat 8).spells first
    obtain ⟨rfl, fits, back⟩ := timesSpell h second
    refine ⟨⟨bound, fits⟩, ?_⟩
    simp only [list, List.append_assoc, ← back]
    exact front

theorem exactVector {c : Codec α} {fits : α → Prop} (h : Exact c fits) (n : Nat) :
    Exact (vector c n) (fun v => ∀ a ∈ v, fits a) := by
  constructor
  · intro v fit rest
    simp only [vector]
    induction n generalizing rest with
    | zero =>
      have empty : v = #v[] := Vector.eq_empty
      rw [empty]
      rfl
    | succ n ih =>
      obtain ⟨front, a, rfl⟩ := v.exists_push
      simp only [Vector.toList_push, List.flatMap_append, List.flatMap_singleton, List.append_assoc,
        readVector]
      rw [readThen (ih (fun b member => fit b (Vector.mem_push_of_mem a member)) _),
        readThen (h.returns (fit a Vector.mem_push_self) rest)]
      rfl
  · intro data v rest read
    simp only [vector] at read ⊢
    induction n generalizing rest with
    | zero =>
      obtain ⟨rfl, rfl⟩ := readPure.mp read
      simp
    | succ n ih =>
      obtain ⟨front, mid, first, next⟩ := readBind.mp read
      obtain ⟨a, last, second, done⟩ := readBind.mp next
      obtain ⟨rfl, rfl⟩ := readPure.mp done
      obtain ⟨fits, before⟩ := ih first
      obtain ⟨fit, after⟩ := h.spells second
      refine ⟨?_, ?_⟩
      · intro b member
        rcases Vector.mem_push.mp member with old | same
        · exact fits b old
        · exact same ▸ fit
      · simp only [Vector.toList_push, List.flatMap_append, List.flatMap_singleton,
          List.append_assoc, ← after]
        exact before

def TextFits (s : String) : Prop := s.utf8ByteSize < UInt64.size

instance : DecidablePred TextFits := fun _ => inferInstanceAs (Decidable (_ < _))

theorem listLoop (b : ByteArray) (i : Nat) (front : Bytes) :
    ByteArray.toList.loop b i front = front.reverse ++ b.data.toList.drop i := by
  fun_induction ByteArray.toList.loop b i front with
  | case1 i front inside ih =>
    have here : i < b.data.toList.length := by simpa using inside
    have got : b.get! i = b.data.toList[i] := getElem!_pos b.data i (by simpa using inside)
    rw [ih, List.drop_eq_getElem_cons here, got]
    simp
  | case2 i front outside =>
    have past : b.data.toList.length ≤ i := by simpa using outside
    rw [List.drop_eq_nil_of_le past, List.append_nil]

theorem listData (b : ByteArray) : b.toList = b.data.toList := by
  rw [ByteArray.toList, listLoop]
  simp

theorem readBytesSome {n : Nat} {data bytes rest : Bytes} :
    readBytes n data = .ok (bytes, rest) ↔ bytes.length = n ∧ data = bytes ++ rest := by
  unfold readBytes
  constructor
  · intro read
    split at read
    · rename_i enough
      cases read
      exact ⟨List.length_take_of_le enough, (List.take_append_drop n data).symm⟩
    · contradiction
  · rintro ⟨rfl, rfl⟩
    simp

theorem utf8Read {bytes : Bytes} {s : String} :
    String.fromUTF8? ⟨bytes.toArray⟩ = some s ↔ s.toUTF8.toList = bytes := by
  rw [listData]
  unfold String.fromUTF8?
  constructor
  · intro read
    split at read
    · cases read
      rfl
    · contradiction
  · rintro rfl
    exact dif_pos s.isValidUTF8

theorem exactText : Exact text TextFits := by
  constructor
  · intro s fit rest
    have count := (exactNat 8).returns fit (s.toUTF8.toList ++ rest)
    have bytes : readBytes s.toUTF8.size (s.toUTF8.toList ++ rest) = .ok (s.toUTF8.toList, rest) :=
      readBytesSome.mpr ⟨by rw [listData]; rfl, rfl⟩
    simp only [text, List.append_assoc]
    refine (readThen count _).trans ((readThen bytes _).trans ?_)
    rw [utf8Read.mpr rfl]
    rfl
  · intro data s rest read
    obtain ⟨n, mid, first, next⟩ := readBind.mp read
    obtain ⟨bytes, last, second, done⟩ := readBind.mp next
    obtain ⟨bound, front⟩ := (exactNat 8).spells first
    obtain ⟨sized, rfl⟩ := readBytesSome.mp second
    cases decoded : String.fromUTF8? ⟨bytes.toArray⟩ with
    | none =>
      rw [decoded] at done
      contradiction
    | some s' =>
      rw [decoded] at done
      obtain ⟨rfl, rfl⟩ := readPure.mp done
      have same := utf8Read.mp decoded
      have length : s.toUTF8.size = n := by
        rw [← sized, ← same, listData]
        rfl
      rw [← length] at bound
      refine ⟨bound, ?_⟩
      simp only [text, List.append_assoc, same, length]
      exact front

theorem exactOneOf [BEq α] [LawfulBEq α] {all : List α} (once : all.Nodup) (every : ∀ a, a ∈ all)
    (few : all.length ≤ UInt32.size) : Exact (oneOf all) (fun _ => True) := by
  constructor
  · intro a _ rest
    have inside : all.idxOf a < all.length := List.idxOf_lt_length_of_mem (every a)
    have found : all[all.idxOf a]? = some a := by
      rw [List.getElem?_eq_getElem inside, List.getElem_idxOf inside]
    simp only [oneOf]
    rw [readThen (exactWord32.returns (Nat.lt_of_lt_of_le inside few) rest), found]
    rfl
  · intro data a rest read
    refine ⟨trivial, ?_⟩
    obtain ⟨i, mid, first, last⟩ := readBind.mp read
    have front := (exactWord32.spells first).2
    cases found : all[i]? with
    | none =>
      rw [found] at last
      contradiction
    | some b =>
      rw [found] at last
      obtain ⟨rfl, rfl⟩ := readPure.mp last
      obtain ⟨inside, rfl⟩ := List.getElem?_eq_some_iff.mp found
      simp only [oneOf, once.idxOf_getElem i inside]
      exact front

end ObjectLayout.Codec
