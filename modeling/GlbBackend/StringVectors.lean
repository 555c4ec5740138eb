import GlbBackend.RingBuffer
import GlbBackend.Text.Fields

/-!
# Cutting a line into words

The programs cut their command lines up with copies of one function, which collects a word in a buffer on the stack.
`ring_buffer::stringToVector` has a larger buffer than the `string2vector` of the shells, and can take line ends for
separators.  The buffer is read as a C string, so what ends up in the vector is what is in front of its first NUL.

For every text the functions stay inside the buffer and find the fields of `Text.fields` (`stringToVector_fields`,
`string2vector_fields`): a word longer than the buffer is cut, and a character is lost at each cut.  So a
vector comes back from its text exactly if all its strings can be words (`vectorToString_roundtrip_iff`,
`joinStrings_roundtrip_iff`).
-/

namespace GlbBackend

open Text Imperative

namespace StringVectors

/-- `std::string(buff)` -/
def cString : Cells Char → Except Fault Str
  | [] => .error .outOfRange
  | none :: _ => .error .indeterminate
  | some ch :: buff =>
      if ch = '\x00' then pure []
      else do
        let str ← cString buff
        pure (ch :: str)

/-- The variables of the loop; the word that is being collected starts at `cb`. -/
structure Words where
  cb : ℤ
  buff : Cells Char
  strVector : List Str
  nStrings : ℤ

/-- Round `ci`, with `strIn[ci]` in `ch`. -/
def wordChar (STRBUFFSIZE : ℕ) (isSep : Char → Bool) (ci : ℕ) (ch : Char) (s : Words) : Except Fault Words :=
  let cl := ci - s.cb
  if isSep ch = true ∨ cl ≥ STRBUFFSIZE then
    if cl ≤ 0 then do
      let buff ← poke s.buff 0 (some '\x00')
      pure { s with cb := ci + 1, buff := buff }
    else do
      let buff ← poke s.buff cl (some '\x00')
      let str ← cString buff
      let buff ← poke buff 0 (some '\x00')
      pure { cb := ci + 1, buff := buff, strVector := s.strVector ++ [str], nStrings := s.nStrings + 1 }
  else do
    let buff ← poke s.buff cl (some ch)
    pure { s with buff := buff }

/-- Round `ci`; `strIn[strIn.size()]` is NUL. -/
def wordStep (STRBUFFSIZE : ℕ) (isSep : Char → Bool) (strIn : Str) (ci : ℕ) (s : Words) : Except Fault Words := do
  let ch ← peek (strIn ++ ['\x00']) ci
  wordChar STRBUFFSIZE isSep ci ch s

def INT_MAX : ℤ := 2 ^ 31 - 1

/-- The body, with the length of the text as an `int`; at `INT_MAX` the counter would overflow. -/
def cutTo (STRBUFFSIZE : ℕ) (isSep : Char → Bool) (strIn : Str) (strVector : List Str) (li : ℤ) :
    Except Fault (ℤ × List Str) := do
  let buff ← newArray (STRBUFFSIZE + 1)
  let buff ← poke buff 0 (some '\x00')
  if li = INT_MAX then .error .stuck
  else
    let s ← forLoop (wordStep STRBUFFSIZE isSep strIn) (li + 1).toNat 0
      { cb := 0, buff := buff, strVector := strVector, nStrings := 0 }
    pure (s.nStrings, s.strVector)

/-- The function that is copied. -/
def cut (STRBUFFSIZE : ℕ) (isSep : Char → Bool) (strIn : Str) (strVector : List Str) :
    Except Fault (ℤ × List Str) := cutTo STRBUFFSIZE isSep strIn strVector (RingBuffer.intLength strIn)

/-- `ch == delim || ch == '\0' || (skipLF && (ch == '\n' || ch == '\r'))` -/
def isSep (delim : Char) (skipLF : Bool) (ch : Char) : Bool :=
  ch == delim || ch == '\x00' || skipLF && (ch == '\n' || ch == '\r')

/-- `ring_buffer::stringToVector` -/
def stringToVector (strIn : Str) (strVector : List Str) (delim : Char) (skipLF : Bool) :
    Except Fault (ℤ × List Str) := cut 4096 (isSep delim skipLF) strIn strVector

/-- `DemoUtils::string2vector`, and the functions of this name in `stdin_loop` and `unordered_map` -/
def string2vector (strIn : Str) (strVector : List Str) (delim : Char) : Except Fault (ℤ × List Str) :=
  cut 1024 (isSep delim false) strIn strVector

/-- `os << strVector[i] << delim;` -/
def joinStep (strVector : List Str) (delim : Str) (first : ℤ) (i : ℕ) (os : Str) : Except Fault Str := do
  let str ← peek strVector (first + i)
  pure (os ++ str ++ delim)

/-- The loop up to the last string, and the last string. -/
def joinFrom (strVector : List Str) (delim : Str) (first last_i : ℤ) : Except Fault Str := do
  let n := (last_i - first).toNat
  let os ← forLoop (joinStep strVector delim first) n 0 []
  let str ← peek strVector (first + n)
  pure (os ++ str)

def joinAll (strVector : List Str) (delim : Str) (nVecs : ℤ) : Except Fault Str :=
  if nVecs = 0 then pure [] else joinFrom strVector delim 0 (nVecs - 1)

/-- `ring_buffer::vectorToString`, with the number of strings as an `int` -/
def vectorToString (strVector : List Str) (delim : Char) : Except Fault Str :=
  joinAll strVector [delim] (Int.bmod strVector.length (2 ^ 32))

/-- `DemoUtils::joinStrings` -/
def joinStrings (strVector : List Str) (delim : Str) (start_idx : ℤ) : Except Fault Str :=
  joinFrom strVector delim start_idx (Int.bmod (strVector.length - 1) (2 ^ 32))

/-! ### What the loop keeps -/

theorem cString_stored {str : Str} (hstr : '\x00' ∉ str) (rest : Cells Char) :
    cString (str.map some ++ some '\x00' :: rest) = .ok str := by
  induction str with
  | nil => rfl
  | cons ch str ih =>
      obtain ⟨hch, hrest⟩ := List.ne_and_not_mem_of_not_mem_cons hstr
      rw [List.map_cons, List.cons_append, cString, if_neg (Ne.symm hch), ih hrest]
      rfl

/-- The variables stand for the fields found so far and the one that is open. -/
structure Scans (limit : ℕ) (before : List Str) (ci : ℕ) (found : List Str × Str) (s : Words) : Prop where
  cb : s.cb = ci - found.2.length
  le : found.2.length ≤ limit
  buff : ∃ rest, s.buff = found.2.map some ++ rest
  length : s.buff.length = limit + 1
  noNul : '\x00' ∉ found.2
  strVector : s.strVector = before ++ found.1
  nStrings : s.nStrings = found.1.length

variable {limit : ℕ} {sep : Char → Bool} {before : List Str}

/-- A round is one character more for the scanner. -/
theorem wordChar_scans (hnul : sep '\x00' = true) (ci : ℕ) (ch : Char)
    {found : List Str × Str} {s : Words} (hs : Scans limit before ci found s) :
    ∃ s', wordChar limit sep ci ch s = .ok s' ∧ Scans limit before (ci + 1) (feed sep limit found ch) s' := by
  obtain ⟨done, cur⟩ := found
  obtain ⟨cb, buff, strVector, nStrings⟩ := s
  obtain ⟨hcb, hle, ⟨rest, hbuff⟩, hlen, hno, hvec, hn⟩ := hs
  simp only at hcb hle hbuff hlen hno hvec hn
  subst hcb hbuff hvec hn
  rw [List.length_append, List.length_map] at hlen
  have hcl : (ci : ℤ) - (ci - cur.length) = cur.length := by omega
  have hinside : cur.length < (cur.map some ++ rest).length := by
    rw [List.length_append, List.length_map]
    omega
  have hset (x : Option Char) : (cur.map some ++ rest).set cur.length x = cur.map some ++ rest.set 0 x := by
    rw [List.set_append_right _ _ (by simp), List.length_map, Nat.sub_self]
  have hzero {buff : Cells Char} (hb : 0 < buff.length) : poke buff 0 (some '\x00') = .ok (buff.set 0 (some '\x00')) :=
    poke_of_lt hb _
  have hfresh (buff : Cells Char) (hb : buff.length = limit + 1) (found : List Str) :
      Scans limit before (ci + 1) (found, []) ⟨ci + 1, buff, before ++ found, found.length⟩ := by
    refine ⟨?_, Nat.zero_le _, ⟨buff, rfl⟩, hb, List.not_mem_nil, rfl, rfl⟩
    show (ci : ℤ) + 1 = (ci + 1 : ℕ) - (0 : ℕ)
    omega
  rw [wordChar, feed, hcl]
  by_cases hfull : sep ch = true ∨ limit ≤ cur.length
  · rw [if_pos (hfull.imp_right Int.ofNat_le.mpr), if_pos hfull]
    by_cases hcur : cur = []
    · rw [if_pos (by simp [hcur]), if_pos hcur, hzero (Nat.zero_lt_of_lt hinside)]
      subst hcur
      exact ⟨_, rfl, hfresh _ (by simpa using hlen) done⟩
    · -- the word is stored, with its NUL behind it
      have hlt := List.length_pos_iff.mpr hcur
      obtain ⟨x, rest, rfl⟩ := List.exists_cons_of_length_pos (l := rest) (by omega)
      rw [if_neg (by show ¬ (cur.length : ℤ) ≤ 0; omega), if_neg hcur, poke_of_lt hinside, hset]
      show ∃ s', (cString (cur.map some ++ some '\x00' :: rest)).bind _ = .ok s' ∧ _
      rw [cString_stored hno]
      show ∃ s', (poke (cur.map some ++ some '\x00' :: rest) 0 _).bind _ = .ok s' ∧ _
      rw [hzero (by simp)]
      refine ⟨_, rfl, ?_⟩
      rw [List.append_assoc]
      have h := hfresh ((cur.map some ++ some '\x00' :: rest).set 0 (some '\x00')) (by simpa using hlen) (done ++ [cur])
      rw [List.length_append, List.length_singleton] at h
      exact h
  · obtain ⟨hsep, hroom⟩ := not_or.mp hfull
    obtain ⟨x, rest, rfl⟩ := List.exists_cons_of_length_pos (l := rest) (by omega)
    rw [if_neg (fun h => hfull (h.imp_right Int.ofNat_le.mp)), if_neg hfull, poke_of_lt hinside, hset]
    refine ⟨_, rfl, ?_, ?_, ⟨rest, ?_⟩, ?_, ?_, rfl, rfl⟩
    · show (ci : ℤ) - cur.length = (ci + 1 : ℕ) - (cur ++ [ch]).length
      rw [List.length_append, List.length_singleton]
      omega
    · show (cur ++ [ch]).length ≤ limit
      rw [List.length_append, List.length_singleton]
      omega
    · simp
    · simpa using hlen
    · show '\x00' ∉ cur ++ [ch]
      rintro hmem
      rcases List.mem_append.mp hmem with h | h
      · exact hno h
      · rw [← List.mem_singleton.mp h] at hsep
        exact hsep hnul

/-- **For every text the function stays inside its buffer and finds the fields.** -/
theorem cut_fields (hlimit : 0 < limit) (hnul : sep '\x00' = true) {strIn : Str}
    (hlen : (strIn.length : ℤ) < INT_MAX) (strVector : List Str) :
    cut limit sep strIn strVector =
      .ok (((fields sep limit strIn).length : ℤ), strVector ++ fields sep limit strIn) := by
  have hli : RingBuffer.intLength strIn = strIn.length := by
    rw [INT_MAX] at hlen
    exact Int.bmod_eq_of_le (by omega) (by omega)
  have hstart : Scans limit strVector 0 ([], [])
      ⟨0, (List.replicate (limit + 1) none).set 0 (some '\x00'), strVector, 0⟩ :=
    ⟨rfl, Nat.zero_le _, ⟨_, rfl⟩, by simp, List.not_mem_nil, (List.append_nil _).symm, rfl⟩
  have hstep : ∀ i s, 0 ≤ i → i < 0 + (strIn.length + 1) →
      Scans limit strVector i (((strIn ++ ['\x00']).take i).foldl (feed sep limit) ([], [])) s →
      ∃ s', wordStep limit sep strIn i s = .ok s' ∧
        Scans limit strVector (i + 1) (((strIn ++ ['\x00']).take (i + 1)).foldl (feed sep limit) ([], [])) s' := by
    intro i s _ hi hs
    have hlt : i < (strIn ++ ['\x00']).length := by
      rw [List.length_append, List.length_singleton]
      omega
    rw [wordStep, peek_of_getElem? (List.getElem?_eq_getElem hlt), List.take_succ_eq_append_getElem hlt,
      List.foldl_append]
    exact wordChar_scans hnul i _ hs
  obtain ⟨s, hloop, hs⟩ := forLoop_inv _ hstart hstep
  rw [Nat.zero_add, List.take_of_length_le (by simp),
    foldl_feed hlimit hnul strIn (Nat.zero_le _) (fun c hc => absurd hc List.not_mem_nil)] at hs
  have hpoke : poke (List.replicate (limit + 1) none) 0 (some '\x00') =
      .ok ((List.replicate (limit + 1) none).set 0 (some '\x00')) := poke_of_lt (by simp) _
  rw [cut, hli, cutTo, show (limit : ℤ) + 1 = (limit + 1 : ℕ) from (Nat.cast_succ limit).symm, newArray_natCast]
  show ((poke (List.replicate (limit + 1) (none : Option Char)) 0 (some '\x00')) >>= fun _ => _) = _
  rw [hpoke]
  show (if (strIn.length : ℤ) = INT_MAX then _ else _ : Except Fault (ℤ × List Str)) = _
  rw [if_neg (Int.ne_of_lt hlen), show ((strIn.length : ℤ) + 1).toNat = strIn.length + 1 by omega]
  show (forLoop (wordStep limit sep strIn) (strIn.length + 1) 0 _).bind _ = _
  rw [hloop]
  show Except.ok (s.nStrings, s.strVector) = _
  rw [hs.nStrings, hs.strVector]
  rfl

theorem isSep_nul (delim : Char) (skipLF : Bool) : isSep delim skipLF '\x00' = true := by
  simp [isSep]

theorem isSep_delim (delim : Char) (skipLF : Bool) : isSep delim skipLF delim = true := by
  simp [isSep]

theorem stringToVector_fields {strIn : Str} (hlen : (strIn.length : ℤ) < INT_MAX) (strVector : List Str)
    (delim : Char) (skipLF : Bool) :
    stringToVector strIn strVector delim skipLF =
      .ok (((fields (isSep delim skipLF) 4096 strIn).length : ℤ),
        strVector ++ fields (isSep delim skipLF) 4096 strIn) :=
  cut_fields (by decide) (isSep_nul delim skipLF) hlen strVector

theorem string2vector_fields {strIn : Str} (hlen : (strIn.length : ℤ) < INT_MAX) (strVector : List Str)
    (delim : Char) :
    string2vector strIn strVector delim =
      .ok (((fields (isSep delim false) 1024 strIn).length : ℤ),
        strVector ++ fields (isSep delim false) 1024 strIn) :=
  cut_fields (by decide) (isSep_nul delim false) hlen strVector

/-- **Every text of fewer than `INT_MAX` characters is cut into its fields**, by the function with the large buffer
and by those with the small one; they store and read nothing outside their buffers. -/
theorem words_found {strIn : Str} (hlen : (strIn.length : ℤ) < INT_MAX) (strVector : List Str) (delim : Char)
    (skipLF : Bool) :
    (stringToVector strIn strVector delim skipLF =
      .ok (((fields (isSep delim skipLF) 4096 strIn).length : ℤ),
        strVector ++ fields (isSep delim skipLF) 4096 strIn)) ∧
    string2vector strIn strVector delim =
      .ok (((fields (isSep delim false) 1024 strIn).length : ℤ),
        strVector ++ fields (isSep delim false) 1024 strIn) :=
  ⟨stringToVector_fields hlen strVector delim skipLF, string2vector_fields hlen strVector delim⟩

/-- A line end between two words, behind a string that is there already. -/
theorem words_found_lineEnd :
    (stringToVector ['a', '\r', 'b'] [['x']] ',' true = .ok (2, [['x'], ['a'], ['b']])) ∧
    string2vector ['a', '\r', 'b'] [['x']] ',' = .ok (1, [['x'], ['a', '\r', 'b']]) := by
  have hle : 1 ≤ 4096 := by norm_num
  have hle' : 3 ≤ 1024 := by norm_num
  have hwords : ∀ t ∈ [['a'], ['b']], Whole (isSep ',' true) 4096 t := by
    simp only [List.forall_mem_cons, List.not_mem_nil, false_imp_iff, implies_true, and_true]
    exact ⟨⟨by decide, hle, by simp [isSep]⟩, ⟨by decide, hle, by simp [isSep]⟩⟩
  have hword : ∀ t ∈ [['a', '\r', 'b']], Whole (isSep ',' false) 1024 t :=
    List.forall_mem_singleton.mpr ⟨by decide, hle', by simp [isSep]⟩
  have htwo : fields (isSep ',' true) 4096 ['a', '\r', 'b'] = [['a'], ['b']] :=
    fields_intercalate (d := '\r') (by decide) hwords
  have hone : fields (isSep ',' false) 1024 ['a', '\r', 'b'] = [['a', '\r', 'b']] :=
    fields_intercalate (d := ',') (by decide) hword
  have h := words_found (show ((['a', '\r', 'b'] : Str).length : ℤ) < INT_MAX by decide) [['x']] ',' true
  rw [htwo, hone] at h
  exact h

/-! ### Strings joined -/

/-- Each string with the delimiter behind it, and the last one. -/
theorem flatMap_getLast (delim : Str) {ts : List Str} (hts : ts ≠ []) :
    (ts.dropLast.flatMap fun t => t ++ delim) ++ ts.getLast hts = List.intercalate delim ts := by
  induction ts with
  | nil => exact absurd rfl hts
  | cons t ts ih =>
      cases ts with
      | nil => rw [List.intercalate_singleton]; rfl
      | cons u ts =>
          rw [List.intercalate_cons_cons, ← ih (List.cons_ne_nil u ts)]
          simp

theorem joinFrom_eq {strVector : List Str} {first : ℕ} (hfirst : first < strVector.length) (delim : Str) :
    joinFrom strVector delim first (strVector.length - 1) = .ok (List.intercalate delim (strVector.drop first)) := by
  have hne : strVector.drop first ≠ [] := List.ne_nil_of_length_pos (by rw [List.length_drop]; omega)
  have hn : ((strVector.length : ℤ) - 1 - first).toNat = (strVector.drop first).length - 1 := by
    rw [List.length_drop]
    omega
  have hget {i : ℕ} (hi : i < (strVector.drop first).length) :
      peek strVector ((first : ℤ) + i) = .ok (strVector.drop first)[i] := by
    rw [List.getElem_drop]
    exact peek_of_getElem? (i := first + i) (List.getElem?_eq_getElem _)
  have hstep : ∀ i os, 0 ≤ i → i < 0 + ((strVector.drop first).length - 1) →
      os = ((strVector.drop first).take i).flatMap (fun t => t ++ delim) →
      ∃ os', joinStep strVector delim first i os = .ok os' ∧
        os' = ((strVector.drop first).take (i + 1)).flatMap (fun t => t ++ delim) := by
    rintro i os - hi rfl
    have hlt : i < (strVector.drop first).length := by omega
    rw [joinStep, hget hlt, List.take_succ_eq_append_getElem hlt, List.flatMap_append, List.flatMap_singleton]
    exact ⟨_, rfl, List.append_assoc _ _ _⟩
  obtain ⟨os, hloop, rfl⟩ :=
    forLoop_inv (s := []) (fun i os => os = ((strVector.drop first).take i).flatMap fun t => t ++ delim) rfl hstep
  rw [joinFrom, hn, hloop, ← flatMap_getLast delim hne, List.dropLast_eq_take, Nat.zero_add]
  show ((peek strVector ((first : ℤ) + ((strVector.drop first).length - 1 : ℕ))) >>= fun _ => _) = _
  rw [hget (Nat.sub_lt (List.length_pos_iff.mpr hne) Nat.one_pos), List.getLast_eq_getElem]
  rfl

/-- The string at the first index is asked for in any case. -/
theorem joinFrom_fails {strVector : List Str} {first : ℤ} (hfirst : first < 0 ∨ strVector.length ≤ first)
    (delim : Str) : joinFrom strVector delim first (strVector.length - 1) = .error .outOfRange := by
  have hpeek : peek strVector first = .error .outOfRange := by
    rw [peek]
    split_ifs with hneg
    · rfl
    · rw [List.getElem?_eq_none (by omega)]
  rw [joinFrom]
  cases hn : ((strVector.length : ℤ) - 1 - first).toNat with
  | zero =>
      show ((peek strVector (first + (0 : ℕ))) >>= fun _ => _) = _
      rw [Nat.cast_zero, add_zero, hpeek]
      rfl
  | succ n =>
      have hfirst0 : joinStep strVector delim first 0 [] = .error .outOfRange := by
        rw [joinStep, Nat.cast_zero, add_zero, hpeek]
        rfl
      show (((joinStep strVector delim first 0 []) >>= fun _ => _) >>= fun _ => _) = _
      rw [hfirst0]
      rfl

/-- The strings are at least as many characters as there are delimiters between them. -/
theorem length_le_intercalate (d : Char) (ts : List Str) :
    ts.length ≤ (List.intercalate [d] ts).length + 1 := by
  induction ts with
  | nil => exact Nat.zero_le _
  | cons t ts ih =>
      cases ts with
      | nil => exact Nat.le_add_left 1 _
      | cons u ts =>
          rw [List.intercalate_cons_cons, List.length_append, List.length_append, List.length_cons,
            List.length_singleton]
          omega

theorem length_intercalate_drop (d : Str) (n : ℕ) (ts : List Str) :
    (List.intercalate d (ts.drop n)).length ≤ (List.intercalate d ts).length := by
  induction ts generalizing n with
  | nil => rw [List.drop_nil]
  | cons t ts ih =>
      cases n with
      | zero => exact Nat.le_refl _
      | succ n =>
          rw [List.drop_succ_cons]
          cases ts with
          | nil =>
              rw [List.drop_nil]
              exact Nat.zero_le _
          | cons u ts =>
              rw [List.intercalate_cons_cons, List.length_append]
              exact Nat.le_trans (ih n) (Nat.le_add_left _ _)

theorem vectorToString_eq {strVector : List Str} (hlen : (strVector.length : ℤ) ≤ INT_MAX) (delim : Char) :
    vectorToString strVector delim = .ok (List.intercalate [delim] strVector) := by
  have hbmod : Int.bmod strVector.length (2 ^ 32) = strVector.length := by
    rw [INT_MAX] at hlen
    exact Int.bmod_eq_of_le (by omega) (by omega)
  rw [vectorToString, hbmod, joinAll]
  cases strVector with
  | nil => rfl
  | cons t ts =>
      rw [if_neg (by rw [List.length_cons]; omega)]
      have hpos : 0 < (t :: ts).length := Nat.succ_pos _
      exact joinFrom_eq hpos [delim]

/-- **A vector comes back from the text of `vectorToString` exactly if all its strings can be words**: none is
empty, longer than the buffer or has a separator in it. -/
theorem vectorToString_roundtrip_iff (strVector : List Str) (delim : Char) (skipLF : Bool)
    (hlen : ((List.intercalate [delim] strVector).length : ℤ) < INT_MAX) :
    (∃ str, vectorToString strVector delim = .ok str ∧
      stringToVector str [] delim skipLF = .ok ((strVector.length : ℤ), strVector)) ↔
    ∀ t ∈ strVector, Whole (isSep delim skipLF) 4096 t := by
  have hcount := length_le_intercalate delim strVector
  rw [vectorToString_eq (by omega), ← fields_intercalate_iff (by decide) (isSep_delim delim skipLF) strVector]
  constructor
  · rintro ⟨str, hstr, hback⟩
    cases hstr
    rw [stringToVector_fields hlen, List.nil_append] at hback
    exact congrArg Prod.snd (Except.ok.inj hback)
  · intro h
    refine ⟨_, rfl, ?_⟩
    rw [stringToVector_fields hlen, List.nil_append, h]

theorem vectorToString_roundtrip_twoWords :
    ∃ str, vectorToString [['a', 'b'], ['c']] ' ' = .ok str ∧
      stringToVector str [] ' ' true = .ok (2, [['a', 'b'], ['c']]) := by
  refine (vectorToString_roundtrip_iff [['a', 'b'], ['c']] ' ' true (by decide)).mpr ?_
  simp only [List.forall_mem_cons, List.not_mem_nil, false_imp_iff, implies_true, and_true]
  have hle : 2 ≤ 4096 := by norm_num
  have hle' : 1 ≤ 4096 := by norm_num
  exact ⟨⟨by decide, hle, by simp [isSep]⟩, ⟨by decide, hle', by simp [isSep]⟩⟩

/-- The same for the shells, from any string on; `joinStrings` fails if there is no such string. -/
theorem joinStrings_roundtrip_iff (strVector : List Str) (delim : Char) (start_idx : ℤ)
    (hlen : ((List.intercalate [delim] strVector).length : ℤ) < INT_MAX) :
    ((∃ str, joinStrings strVector [delim] start_idx = .ok str ∧
      string2vector str [] delim =
        .ok ((strVector.length : ℤ) - start_idx, strVector.drop start_idx.toNat)) ↔
    0 ≤ start_idx ∧ start_idx < strVector.length ∧
      ∀ t ∈ strVector.drop start_idx.toNat, Whole (isSep delim false) 1024 t) ∧
    (¬ (0 ≤ start_idx ∧ start_idx < strVector.length) →
      joinStrings strVector [delim] start_idx = .error .outOfRange) := by
  have hcount := length_le_intercalate delim strVector
  have hbmod : Int.bmod ((strVector.length : ℤ) - 1) (2 ^ 32) = strVector.length - 1 := by
    rw [INT_MAX] at hlen
    exact Int.bmod_eq_of_le (by omega) (by omega)
  have hfails : ¬ (0 ≤ start_idx ∧ start_idx < strVector.length) →
      joinStrings strVector [delim] start_idx = .error .outOfRange := by
    intro hrange
    rw [joinStrings, hbmod]
    exact joinFrom_fails (by omega) _
  refine ⟨?_, hfails⟩
  by_cases hrange : 0 ≤ start_idx ∧ start_idx < strVector.length
  · obtain ⟨first, rfl⟩ := Int.eq_ofNat_of_zero_le hrange.1
    have hfirst : first < strVector.length := Int.ofNat_lt.mp hrange.2
    have hlen' : ((List.intercalate [delim] (strVector.drop first)).length : ℤ) < INT_MAX :=
      Int.lt_of_le_of_lt (Int.ofNat_le.mpr (length_intercalate_drop _ _ _)) hlen
    rw [joinStrings, hbmod, joinFrom_eq hfirst, Int.toNat_natCast,
      ← fields_intercalate_iff (by decide) (isSep_delim delim false) (strVector.drop first)]
    constructor
    · rintro ⟨str, hstr, hback⟩
      cases hstr
      rw [string2vector_fields hlen', List.nil_append] at hback
      exact ⟨hrange.1, hrange.2, congrArg Prod.snd (Except.ok.inj hback)⟩
    · rintro ⟨-, -, h⟩
      refine ⟨_, rfl, ?_⟩
      rw [string2vector_fields hlen', List.nil_append, h, List.length_drop, Nat.cast_sub (Nat.le_of_lt hfirst)]
  · rw [hfails hrange]
    constructor
    · rintro ⟨str, hstr, -⟩
      cases hstr
    · rintro ⟨h0, hlt, -⟩
      exact absurd ⟨h0, hlt⟩ hrange

/-- The arguments of a command, without its name. -/
theorem joinStrings_roundtrip_arguments :
    ∃ str, joinStrings [['c'], ['a', 'b'], ['d']] [' '] 1 = .ok str ∧
      string2vector str [] ' ' = .ok (2, [['a', 'b'], ['d']]) := by
  refine (joinStrings_roundtrip_iff [['c'], ['a', 'b'], ['d']] ' ' 1 (by decide)).1.mpr ⟨by decide, by decide, ?_⟩
  show ∀ t ∈ [['a', 'b'], ['d']], Whole (isSep ' ' false) 1024 t
  simp only [List.forall_mem_cons, List.not_mem_nil, false_imp_iff, implies_true, and_true]
  have hle : 2 ≤ 1024 := by norm_num
  have hle' : 1 ≤ 1024 := by norm_num
  exact ⟨⟨by decide, hle, by simp [isSep]⟩, ⟨by decide, hle', by simp [isSep]⟩⟩

end StringVectors

end GlbBackend
