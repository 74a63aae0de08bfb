import BraceParams.Proofs.Yaml.BlockScalar
import BraceParams.Proofs.Yaml.QuotedScalar
import BraceParams.Proofs.Yaml.Scan

namespace BraceParams.Yaml

open Write

namespace Scanner

variable {b k : Nat} {bs blocks : List Nat} {keyAllowed : Bool} {c : Char} {m : Mark} {tokens : List Token}
  {count : Nat} {r s e rest key : List Char} {later : List Token.Kind}

theorem isSeparator_eq_false {d : Char} (h : c ≠ d) : isSeparator d m (c :: r) = false := by
  simp [isSeparator, Ne.symm h]

theorem token_blockEntry (hr : endsWord r) :
    token { cursor := ⟨m, '-' :: r⟩, tokens, count, blocks := m.column :: bs } =
      .ok { cursor := ⟨m.after '-', r⟩, tokens := ⟨.blockEntry, m, m.after '-'⟩ :: tokens, count := count + 1,
            blocks := m.column :: bs } := by
  have hsep : isSeparator '-' m ('-' :: r) = false := by
    cases r with
    | nil => simp [isSeparator]
    | cons c r =>
      have hc : c ≠ '-' := by
        rintro rfl
        simp [endsWord, isBreak, isGap] at hr
      simp [isSeparator, Ne.symm hc]
  have hdot : isSeparator '.' m ('-' :: r) = false := isSeparator_eq_false (by decide)
  have hopen : openBlock { cursor := ⟨m, '-' :: r⟩, tokens, count, blocks := m.column :: bs } m.column count
      .blockSequenceStart m = { cursor := ⟨m, '-' :: r⟩, tokens, count, blocks := m.column :: bs } := by
    rw [openBlock, indent, if_neg (by simp)]
  simp [token, mark, hsep, hdot, hr, blockEntry, inFlow, hopen, dropKey, take, put, push, Cursor.skip, Cursor.next, bind,
    Except.bind]

theorem serves_blockEntry (hr : endsWord r) (h : Behind true (b :: bs) (b + 1) r later) :
    Spot.Serves ⟨b :: bs, true, b, '-' :: r⟩ (.blockEntry :: later) := by
  rintro m tokens count rfl
  exact Scans.of_behind h (token_blockEntry hr) rfl (by simp) rfl rfl (Nat.lt_succ_self _) (by simp)

structure IsKey (key : List Char) : Prop where
  allowed : allowsPlain key
  nonempty : key ≠ []
  word : ∀ c ∈ key, isSpace c = false ∧ c ≠ '-' ∧ c ≠ '.'
  short : (key.map Char.utf8Size).sum ≤ 1024

theorem startsPlain_of_isLeadingIndicator (hp : isPlainChar c) (hs : isSpace c = false)
    (h : isLeadingIndicator c r = false) : startsPlain false c (r ++ e) := by
  simp only [isLeadingIndicator, Bool.or_eq_false_iff, Bool.and_eq_false_iff, decide_eq_false_iff_not] at h
  by_cases hc : c ∈ ['?', ':', '-']
  · have hw : endsWord (r ++ e) = false := endsWord_append (h.2.resolve_left fun hn => hn hc)
    have hg : (r ++ e).head?.any isGap = false := by
      cases hre : r ++ e with
      | nil => rfl
      | cons d t =>
        rw [hre, endsWord, Bool.or_eq_false_iff] at hw
        exact hw.2
    simp only [List.mem_cons, List.not_mem_nil, or_false] at hc
    rcases hc with rfl | rfl | rfl
    · simp [startsPlain, hw]
    · simp [startsPlain, hw]
    · rw [startsPlain, if_pos rfl, hg]
      rfl
  · have hg : isGap c = false := by rw [isGap_of_isPlainChar hp, hs]
    simp_all [startsPlain]

theorem token_plain (hp : isPlainChar c) (hs : isSpace c = false) (h : isLeadingIndicator c r = false)
    (hm : 0 < m.column ∨ c ≠ '-' ∧ c ≠ '.') {s : Scanner} (hr : s.cursor = ⟨m, c :: (r ++ e)⟩) (ho : s.outer = []) :
    s.token = s.plainScalar := by
  have hstart : startsPlain false c (r ++ e) := startsPlain_of_isLeadingIndicator hp hs h
  have hsep : ∀ d, c ≠ d ∨ 0 < m.column → isSeparator d m (c :: (r ++ e)) = false := by
    rintro d (hd | hm)
    · exact isSeparator_eq_false hd
    · simp [isSeparator, Nat.ne_of_gt hm]
  have hdash := hsep '-' (hm.symm.imp_left (·.1))
  have hdot := hsep '.' (hm.symm.imp_left (·.2))
  simp only [isLeadingIndicator, Bool.or_eq_false_iff, Bool.and_eq_false_iff, decide_eq_false_iff_not] at h
  have hi := h.1
  simp only [List.mem_cons, not_or] at hi
  rw [token, hr]
  simp only [mark, hr, hdash, hdot, inFlow, ho, hi]
  by_cases hc : c ∈ ['?', ':', '-']
  · have hw : endsWord (r ++ e) = false := endsWord_append (h.2.resolve_left fun hn => hn hc)
    simp [hw, hstart]
  · simp only [List.mem_cons, not_or] at hc
    simp [hc, hstart]

def newKey (s : Scanner) : Option PendingKey :=
  if s.keyAllowed then some ⟨s.count, !s.inFlow && s.blocks.head? == some s.mark.column, s.mark⟩ else none

theorem saveKey_eq {s : Scanner} (h : s.pending = none) : s.saveKey = .ok { s with pending := s.newKey } := by
  rw [saveKey, newKey]
  split
  · simp only [dropKey, h, bind, Except.bind]
  · rw [← h]

theorem plainScalar_eq {s : Scanner} {reading : Plain.Reading} (h : s.pending = none)
    (hr : Plain.read s.inFlow s.indent s.cursor = .ok reading) :
    s.plainScalar = .ok ({ s with cursor := reading.cursor, keyAllowed := reading.atBreak, pending := s.newKey }.push
      ⟨.scalar reading.text .plain, s.mark, reading.stop⟩) := by
  rw [plainScalar, saveKey_eq h]
  change (Plain.read s.inFlow s.indent s.cursor >>= _) = _
  rw [hr]
  rfl

theorem token_key (m : Mark) (tokens : List Token) (count : Nat) (blocks : List Nat) (hk : IsKey key) (hr : endsWord r) :
    ∃ stop, token { cursor := ⟨m, key ++ ':' :: r⟩, tokens, count, blocks } =
      .ok { cursor := ⟨key.foldl Mark.after m, ':' :: r⟩, tokens := ⟨.scalar key .plain, m, stop⟩ :: tokens,
            count := count + 1, blocks, keyAllowed := false,
            pending := some ⟨count, blocks.head? == some m.column, m⟩ } := by
  obtain ⟨stop, hread⟩ := Plain.read_key (m := m) (indent { cursor := ⟨m, key ++ ':' :: r⟩, tokens, count, blocks }) hk.allowed
    (fun c hc => (hk.word c hc).1) hr
  refine ⟨stop, ?_⟩
  obtain ⟨c, r', rfl⟩ := List.exists_cons_of_ne_nil hk.nonempty
  obtain ⟨hp, hi, -, hs, -⟩ := of_allowsPlain hk.allowed
  rw [token_plain (hp c List.mem_cons_self) (by simpa using hs) (isLeadingIndicator_of_hasIndicator hi)
    (.inr (hk.word c List.mem_cons_self).2) rfl rfl]
  exact plainScalar_eq (s := { cursor := ⟨m, c :: r' ++ ':' :: r⟩, tokens, count, blocks }) rfl hread

inductive Opens (k : Nat) : List Nat → List Nat → List Token.Kind → Prop
  | first : Opens k [] [k] [.blockMappingStart]
  | deeper {b : Nat} (bs : List Nat) (h : b < k) : Opens k (b :: bs) (k :: b :: bs) [.blockMappingStart]
  | none (bs : List Nat) : Opens k (k :: bs) (k :: bs) []

theorem openBlock_eq {s : Scanner} {opened : List Nat} {kinds : List Token.Kind} (ho : s.outer = [])
    (h : Opens k s.blocks opened kinds) (index : Nat) (m : Mark) :
    ∃ ts count, ts.map (·.kind) = kinds ∧ s.openBlock k index .blockMappingStart m =
      { s with blocks := opened, count,
               tokens := s.tokens.take (s.count - index) ++ (ts ++ s.tokens.drop (s.count - index)) } := by
  have hopen : s.indent ≤ k → s.openBlock k index .blockMappingStart m =
      insert { s with blocks := k :: s.blocks } index ⟨.blockMappingStart, m, m⟩ := by
    intro hi
    simp [openBlock, inFlow, ho, hi]
  obtain ⟨cursor, tokens, count, blocks, keyAllowed, pending, outer⟩ := s
  cases h with
  | first => exact ⟨[⟨.blockMappingStart, m, m⟩], count + 1, rfl, hopen (Nat.zero_le k)⟩
  | deeper bs h => exact ⟨[⟨.blockMappingStart, m, m⟩], count + 1, rfl, hopen h⟩
  | none bs =>
    refine ⟨[], count, rfl, ?_⟩
    rw [openBlock, indent, if_neg (by simp), List.nil_append, List.take_append_drop]

theorem token_value (m : Mark) (t : Token) (tokens : List Token) (count : Nat) (required : Bool) {start : Mark}
    {opened : List Nat} {kinds : List Token.Kind} (hr : endsWord r) (h : Opens start.column blocks opened kinds) :
    ∃ ts count', ts.map (·.kind) = kinds ∧
      token { cursor := ⟨m, ':' :: r⟩, tokens := t :: tokens, count := count + 1, blocks, keyAllowed := false,
              pending := some ⟨count, required, start⟩ } =
        .ok { cursor := ⟨m.after ':', r⟩, count := count', blocks := opened, keyAllowed := false,
              tokens := ⟨.value, m, m.after ':'⟩ :: t :: ⟨.key, start, start⟩ :: (ts ++ tokens) } := by
  let s : Scanner :=
    { cursor := ⟨m, ':' :: r⟩, tokens := t :: tokens, count := count + 1, blocks, keyAllowed := false,
      pending := some ⟨count, required, start⟩ }
  let s' : Scanner := { s with tokens := t :: ⟨.key, start, start⟩ :: tokens, count := count + 2 }
  -- One token came after the key was noted, the scalar; the key goes behind it in the list, latest first.
  have hkey : s.insert count ⟨.key, start, start⟩ = s' := by
    rw [insert, show s.count - count = 1 from Nat.add_sub_cancel_left count 1]
    rfl
  obtain ⟨ts, count', hts, hopen⟩ := openBlock_eq (s := s') rfl h count start
  rw [show s'.count - count = 2 from Nat.add_sub_cancel_left count 2] at hopen
  refine ⟨ts, count' + 1, hts, ?_⟩
  have ht : s.token = s.value := by
    simp [token, s, mark, isSeparator_eq_false, hr]
  have hv : s.value = .ok (take { s'.openBlock start.column count .blockMappingStart start with
      pending := none, keyAllowed := false } 1 .value) := by
    rw [← hkey]
    rfl
  rw [ht.trans hv, hopen]
  rfl

theorem IsKey.foldl_after (hk : IsKey key) :
    key.foldl Mark.after m = ⟨m.line, m.column + key.length, m.octets + (key.map Char.utf8Size).sum⟩ := by
  obtain ⟨hp, -, hb, -⟩ := of_allowsPlain hk.allowed
  refine Mark.foldl_after fun c hc => ?_
  rw [← isAnyBreak_of_isPlainChar (hp c hc), hb c hc]

theorem IsKey.fresh (hk : IsKey key) (index : Nat) (required : Bool) :
    isStale (key.foldl Mark.after m) ⟨index, required, m⟩ = false := by
  have := hk.short
  simp only [isStale, hk.foldl_after, Bool.or_eq_false_iff, decide_eq_false_iff_not]
  omega

theorem Opens.closedBy_eq {opened : List Nat} {kinds : List Token.Kind} {n : Nat} (ho : Opens k blocks opened kinds)
    (h : k ≤ n) : closedBy n blocks = ([], blocks) := by
  cases ho with
  | first => rfl
  | deeper bs hb => exact closedBy_of_le (by omega)
  | none bs => exact closedBy_of_le h

theorem serves_key {opened : List Nat} {kinds : List Token.Kind} (hk : IsKey key) (ho : Opens k blocks opened kinds)
    (hr : endsWord r) (h : Behind false opened (k + key.length + 1) r later) :
    Spot.Serves ⟨blocks, true, k, key ++ ':' :: r⟩ (kinds ++ .key :: .scalar key .plain :: .value :: later) := by
  rintro m tokens count rfl
  have hkinds : kinds.reverse = kinds := by cases ho <;> rfl
  have hlen : (':' :: r).length < (key ++ ':' :: r).length := by
    rw [List.length_append]
    exact Nat.lt_add_of_pos_left (List.length_pos_iff.mpr hk.nonempty)
  have hclosed : closedBy (key.foldl Mark.after m).column blocks = ([], blocks) :=
    ho.closedBy_eq (by rw [hk.foldl_after]; exact Nat.le_add_right _ _)
  have hcol : ((key.foldl Mark.after m).after ':').column = m.column + key.length + 1 := by
    rw [hk.foldl_after]
    rfl
  -- The scalar comes first; at the colon the key, and the mapping if one starts here, go in front of it.
  obtain ⟨stop, ht⟩ := token_key m tokens count blocks hk hr
  obtain ⟨ts, count', hts, hv⟩ := token_value (key.foldl Mark.after m) ⟨.scalar key .plain, m, stop⟩ tokens count
    (blocks.head? == some m.column) hr ho
  obtain ⟨hd, hs⟩ := settle_of_fresh (s :=
    { cursor := ⟨key.foldl Mark.after m, ':' :: r⟩, tokens := ⟨.scalar key .plain, m, stop⟩ :: tokens
      count := count + 1, blocks, keyAllowed := false, pending := some ⟨count, blocks.head? == some m.column, m⟩ })
    rfl rfl (by rintro _ ⟨⟩; exact hk.fresh count _) hclosed
  rw [← hcol] at h
  exact Scans.of_step ht hd hs rfl hlen
    (Scans.of_behind h hv rfl (by simp) rfl rfl (Nat.lt_succ_self _) (by simp [hts, hkinds]))

theorem quotedScalar_eq {s : Scanner} {style : Style} {text : List Char} {cursor : Cursor} (h : s.pending = none)
    (hr : (if style = .singleQuoted then Quoted.single s.cursor else Quoted.double s.cursor) = .ok (text, cursor)) :
    s.quotedScalar style = .ok ({ s with cursor, keyAllowed := false, pending := s.newKey }.push
      ⟨.scalar text style, s.mark, cursor.mark⟩) := by
  rw [quotedScalar, saveKey_eq h]
  by_cases hs : style = .singleQuoted
  · rw [if_pos hs] at hr
    simp only [bind, Except.bind, if_pos hs, hr]
    rfl
  · rw [if_neg hs] at hr
    simp only [bind, Except.bind, if_neg hs, hr]
    rfl

theorem blockScalar_eq {s : Scanner} {text : List Char} {cursor : Cursor} (h : s.pending = none)
    (hr : Block.read false s.indent s.cursor = .ok (text, cursor)) :
    s.blockScalar .literal = .ok ({ s with cursor, keyAllowed := true }.push
      ⟨.scalar text .literal, s.mark, cursor.mark⟩) := by
  have hd : s.dropKey = .ok s := by rw [dropKey, h]
  rw [blockScalar, hd]
  change (Block.read false s.indent s.cursor >>= _) = _
  rw [hr]
  rfl

structure Scanned (s : Scanner) (m : Mark) (tokens : List Token) (blocks : List Nat) (kind : Token.Kind)
    (cursor : Cursor) : Prop where
  tokens : ∃ stop, s.tokens = ⟨kind, m, stop⟩ :: tokens
  blocks : s.blocks = blocks
  outer : s.outer = []
  pending : ∀ key ∈ s.pending, key.required = false ∧ key.mark = m
  skip : skipSpace false .start s.keyAllowed s.mark s.cursor.rest = (true, cursor)

theorem newKey_cases {s : Scanner} (hb : s.blocks = b :: bs) (hk : b < s.mark.column) :
    ∀ key ∈ s.newKey, key.required = false ∧ key.mark = s.mark := by
  intro key hkey
  rw [newKey] at hkey
  split at hkey
  · obtain rfl := Option.some.inj hkey
    exact ⟨by simp [hb, Nat.ne_of_lt hk], rfl⟩
  · cases hkey

theorem token_plainLine {n : Nat} {tail : List Char} (hs : allowsPlain s) (hne : s ≠ []) (hb : b < m.column)
    (hn : n ≤ b) (ht : startsToken tail) :
    ∃ s', token { cursor := ⟨m, s ++ '\n' :: (spaces n ++ tail)⟩, tokens, count, blocks := b :: bs, keyAllowed } = .ok s' ∧
      Scanned s' m tokens (b :: bs) (.scalar s .plain) ⟨(s ++ '\n' :: spaces n).foldl Mark.after m, tail⟩ := by
  obtain ⟨stop, hread⟩ := Plain.read_line (m := m) hs hb ht (Nat.lt_succ_of_le hn)
  obtain ⟨c, r, rfl⟩ := List.exists_cons_of_ne_nil hne
  obtain ⟨hp, hi, -, hsp, -⟩ := of_allowsPlain hs
  rw [token_plain (hp c List.mem_cons_self) (by simpa using hsp) (isLeadingIndicator_of_hasIndicator hi)
    (.inl (Nat.zero_lt_of_lt hb)) rfl rfl]
  let s : Scanner :=
    { cursor := ⟨m, c :: r ++ '\n' :: (spaces n ++ tail)⟩, tokens, count, blocks := b :: bs, keyAllowed }
  refine ⟨_, plainScalar_eq (s := s) rfl hread, ⟨stop, rfl⟩, rfl, rfl, newKey_cases rfl hb, ?_⟩
  rw [List.foldl_append]
  exact skipSpace_spaces 0 (by simp) ht

theorem lineEnd_of_ne (h : form s ≠ .literal) : lineEnd s = ['\n'] := by
  rw [lineEnd, if_neg fun hl => h hl.1]

theorem token_scalarLine {n : Nat} {tail : List Char} (hb : b < m.column) (hn : n ≤ b) (ht : startsToken tail) :
    ∃ s', token { cursor := ⟨m, scalarLine (b + 2) s ++ (spaces n ++ tail)⟩, tokens, count, blocks := b :: bs, keyAllowed } =
        .ok s' ∧
      Scanned s' m tokens (b :: bs) (.scalar s (style s)) ⟨(scalarLine (b + 2) s ++ spaces n).foldl Mark.after m, tail⟩ := by
  let s₀ : Scanner :=
    { cursor := ⟨m, scalarLine (b + 2) s ++ (spaces n ++ tail)⟩, tokens, count, blocks := b :: bs, keyAllowed }
  have hcursor : s₀.cursor = ⟨m, scalar (b + 2) s ++ (lineEnd s ++ (spaces n ++ tail))⟩ := by
    simp [s₀, scalarLine]
  have hkey : ∀ key ∈ s₀.newKey, key.required = false ∧ key.mark = m := newKey_cases rfl hb
  have hquoted : ∀ q, form s ≠ .literal → s₀.token = s₀.quotedScalar q →
      (if q = .singleQuoted then Quoted.single s₀.cursor else Quoted.double s₀.cursor) =
        .ok (s, ⟨(scalar (b + 2) s).foldl Mark.after m, lineEnd s ++ (spaces n ++ tail)⟩) →
      ∃ s', s₀.token = .ok s' ∧ Scanned s' m tokens (b :: bs) (.scalar s q)
        ⟨(scalarLine (b + 2) s ++ spaces n).foldl Mark.after m, tail⟩ := by
    intro q hf htoken hread
    refine ⟨_, htoken.trans (quotedScalar_eq rfl hread), ⟨_, rfl⟩, rfl, rfl, hkey, ?_⟩
    rw [scalarLine, lineEnd_of_ne hf, List.foldl_append, List.foldl_append]
    exact skipSpace_newLine n ht
  cases hf : form s with
  | plain =>
    have hline : scalarLine (b + 2) s = s ++ ['\n'] := by rw [scalarLine, scalar, hf, lineEnd_of_ne (by simp [hf])]
    have hstyle : style s = .plain := by rw [Write.style, hf]
    rw [hline, hstyle, List.append_assoc, List.append_assoc]
    exact token_plainLine (of_form_plain hf).2 (ne_nil_of_form_plain hf) hb hn ht
  | single =>
    have hstyle : style s = .singleQuoted := by rw [Write.style, hf]
    have hne : form s ≠ .literal := by simp [hf]
    rw [hstyle]
    refine hquoted _ hne ?_ ?_
    · simp [token, s₀, mark, scalarLine, scalar, hf, isSeparator_eq_false]
    · rw [if_pos rfl, hcursor]
      exact Quoted.single_scalar (Nat.succ_pos (b + 1)) hf (by simp [lineEnd_of_ne hne])
  | double =>
    have hstyle : style s = .doubleQuoted := by rw [Write.style, hf]
    rw [hstyle]
    refine hquoted _ (by simp [hf]) ?_ ?_
    · simp [token, s₀, mark, scalarLine, scalar, hf, isSeparator_eq_false]
    · rw [if_neg (by simp), hcursor]
      exact Quoted.double_scalar hf
  | literal =>
    have htoken : s₀.token = s₀.blockScalar .literal := by
      simp [token, s₀, mark, scalarLine, scalar, hf, isSeparator_eq_false, inFlow]
    have hread : Block.read false s₀.indent s₀.cursor =
        .ok (s, ⟨(scalarLine (b + 2) s ++ spaces n).foldl Mark.after m, tail⟩) := by
      rw [hcursor, scalarLine, List.append_assoc]
      exact Block.read_scalar (Nat.succ_pos b) hf (Nat.le_succ_of_le hn) ht
    refine ⟨_, htoken.trans (blockScalar_eq rfl hread), ?_, rfl, rfl, by simp [push, s₀], ?_⟩
    · rw [Write.style, hf]
      exact ⟨_, rfl⟩
    · exact skipSpace_spaces 0 (by simp) ht

theorem scalarLine_eq (indent : Nat) (s : List Char) : ∃ w c, scalarLine indent s = w ++ [c] ∧ isBreak c := by
  by_cases h : form s = .literal ∧ s.getLast?.any isAnyBreak
  · obtain ⟨hf, hl⟩ := h
    obtain ⟨c, hc, hb⟩ := (Option.any_eq_true _ _).mp hl
    obtain ⟨x, rfl⟩ := List.getLast?_eq_some_iff.mp hc
    have hne : form (x ++ [c]) ≠ .double := by simp [hf]
    have hp : isPlainChar c := (needsEscapes_eq_false.mp (needsEscapes_of_form hne)).1 c (by simp)
    rw [isAnyBreak_of_isPlainChar hp] at hb
    have hw : scalarLine indent (x ++ [c]) =
        '|' :: indentationHint (x ++ [c]) ++ chompingHint (x ++ [c]) ++ '\n' :: literalFrom indent true x ++ [c] := by
      rw [scalarLine, lineEnd, if_pos ⟨hf, hl⟩, List.append_nil, scalar, hf]
      dsimp only
      rw [Block.literalFrom_break x (by rwa [isAnyBreak_of_isPlainChar hp]), ← List.cons_append, ← List.append_assoc]
    exact ⟨_, c, hw, hb⟩
  · exact ⟨scalar indent s, '\n', by rw [scalarLine, lineEnd, if_neg h], rfl⟩

theorem serves_line {written : List Char} {kind : Token.Kind} (he : kind ≠ .streamEnd)
    (hw : ∃ w c, written = w ++ [c] ∧ isBreak c)
    (hscan : ∀ m tokens count n tail, m.column = k → n ≤ b → startsToken tail →
      ∃ s', token { cursor := ⟨m, written ++ (spaces n ++ tail)⟩, tokens, count, blocks := b :: bs, keyAllowed } = .ok s' ∧
        Scanned s' m tokens (b :: bs) kind ⟨(written ++ spaces n).foldl Mark.after m, tail⟩)
    (h : LineServes b bs rest later) :
    Spot.Serves ⟨b :: bs, keyAllowed, k, written ++ rest⟩ (kind :: later) := by
  intro m tokens count hm
  obtain ⟨n, tail, closed, stay, later', hn, rfl, ht, hc, rfl, hs⟩ := h
  obtain ⟨s', htoken, ⟨stop, htokens⟩, hblocks, houter, hpending, hskip⟩ := hscan m tokens count n tail hm hn ht
  obtain ⟨w, c, rfl, hbreak⟩ := hw
  have hmark : (w ++ [c] ++ spaces n).foldl Mark.after m = ⟨(w.foldl Mark.after m).line + 1, n, n⟩ :=
    Mark.foldl_after_line hbreak n
  have hcol : ((w ++ [c] ++ spaces n).foldl Mark.after m).column = n := by rw [hmark]
  have hline : m.line < ((w ++ [c] ++ spaces n).foldl Mark.after m).line := by
    rw [hmark]
    exact Nat.lt_succ_of_le Mark.line_le_foldl
  have hlen : tail.length < (w ++ [c] ++ (spaces n ++ tail)).length := by
    simp only [List.length_append, List.length_singleton]
    omega
  rw [← hcol] at hs hc
  refine Scans.of_token hs htoken htokens he houter hskip ?_ (by rw [hblocks, hc]) hlen (by simp [htokens])
  intro key hkey
  obtain ⟨hr, hm⟩ := hpending key hkey
  exact ⟨hr, by rwa [hm]⟩

theorem serves_scalar (hb : b < k) (h : LineServes b bs rest later) :
    Spot.Serves ⟨b :: bs, keyAllowed, k, scalarLine (b + 2) s ++ rest⟩ (.scalar s (style s) :: later) := by
  refine serves_line (by simp) (scalarLine_eq _ s) ?_ h
  rintro m tokens count n tail rfl hn ht
  exact token_scalarLine hb hn ht

theorem serves_plain (hs : allowsPlain s) (hne : s ≠ []) (hb : b < k) (h : LineServes b bs rest later) :
    Spot.Serves ⟨b :: bs, keyAllowed, k, s ++ '\n' :: rest⟩ (.scalar s .plain :: later) := by
  rw [List.append_cons]
  refine serves_line (by simp) ⟨s, '\n', rfl, rfl⟩ ?_ h
  rintro m tokens count n tail rfl hn ht
  rw [← List.append_cons, ← List.append_cons]
  exact token_plainLine hs hne hb hn ht

theorem serves_emptyFlow (h : Behind false blocks (k + 2) r later) :
    Spot.Serves ⟨blocks, false, k, '[' :: ']' :: r⟩ (.flowSequenceStart :: .flowSequenceEnd :: later) := by
  rintro m tokens count rfl
  let s : Scanner := Spot.scanner ⟨blocks, false, m.column, '[' :: ']' :: r⟩ m tokens count
  let s₁ : Scanner :=
    { cursor := ⟨m.after '[', ']' :: r⟩, tokens := ⟨.flowSequenceStart, m, m.after '['⟩ :: tokens, count := count + 1
      blocks, outer := [none] }
  let s₂ : Scanner :=
    { cursor := ⟨(m.after '[').after ']', r⟩, count := count + 2, blocks, keyAllowed := false
      tokens := ⟨.flowSequenceEnd, m.after '[', (m.after '[').after ']'⟩ :: s₁.tokens }
  have hopen : s.token = s.openFlow .flowSequenceStart := by
    simp [token, s, Spot.scanner, mark, isSeparator_eq_false]
  have hclose : s₁.token = s₁.closeFlow .flowSequenceEnd := by
    simp [token, s₁, mark, isSeparator_eq_false]
  have h₁ : s.token = .ok s₁ := hopen.trans rfl
  have h₂ : s₁.token = .ok s₂ := hclose.trans rfl
  have hd : s₁.dropStale = .ok s₁ := rfl
  have hs : s₁.settle = .ok s₁ := by
    have hskip : s₁.toToken = s₁ := by
      simp [toToken, s₁, skipSpace, isBreak, mark]
    rw [settle, hskip, hd]
    rfl
  exact Scans.of_step h₁ hd hs rfl (Nat.lt_succ_self _)
    (Scans.of_behind h h₂ rfl (by simp) rfl rfl (Nat.lt_succ_self _) (by simp [s₂, s₁]))

theorem serves_end : Spot.Serves ⟨blocks, keyAllowed, 0, []⟩ (List.replicate blocks.length .blockEnd ++ [.streamEnd]) := by
  intro m tokens count hm
  let s : Scanner := Spot.scanner ⟨blocks, keyAllowed, 0, []⟩ m tokens count
  obtain ⟨ts, count', hts, hclose⟩ := closeBlocks_eq (s := s) rfl blocks []
  let s' : Scanner :=
    { cursor := ⟨m, []⟩, tokens := ⟨.streamEnd, m, m⟩ :: ts, count := count' + 1, keyAllowed := false }
  have ht : s.token = .ok s' := by
    have hm₀ : s.mark.column = 0 := hm
    rw [token, show s.cursor.rest = [] from rfl]
    dsimp only
    rw [endStream, if_pos hm₀, closeAll]
    change (closeBlocks s blocks []).dropKey >>= _ = _
    rw [hclose]
    rfl
  have hk : ((tokens.map (·.kind)).reverse ++ (List.replicate blocks.length .blockEnd ++ [.streamEnd])) =
      (s'.tokens.map (·.kind)).reverse := by
    simp [s', hts, s, Spot.scanner]
  rw [hk]
  exact Scans.of_end ht rfl rfl

theorem startsToken_of_allowsPlain (h : allowsPlain s) (hne : s ≠ []) : startsToken (s ++ e) := by
  obtain ⟨hp, hi, hb, hs, -⟩ := of_allowsPlain h
  obtain ⟨c, r, rfl⟩ := List.exists_cons_of_ne_nil hne
  have hpc : isPlainChar c := hp c List.mem_cons_self
  have hl := isLeadingIndicator_of_hasIndicator hi
  have hg : isGap c = false := by
    rw [isGap_of_isPlainChar hpc]
    simpa using hs
  have hbr : isBreak c = false := by rw [← isAnyBreak_of_isPlainChar hpc, hb c List.mem_cons_self]
  have hh : c ≠ '#' := by
    rintro rfl
    simp [isLeadingIndicator] at hl
  have hm : c ≠ '\ufeff' := by rintro rfl; revert hpc; decide
  simp [startsToken, hg, hbr, hh, hm]

theorem startsToken_scalarLine (indent : Nat) (s e : List Char) : startsToken (scalarLine indent s ++ e) := by
  rw [scalarLine, List.append_assoc, scalar]
  cases hf : form s with
  | plain => exact startsToken_of_allowsPlain (of_form_plain hf).2 (ne_nil_of_form_plain hf)
  | _ => rfl

theorem LineServes.ofKey (hk : IsKey key) (hr : endsWord r) (h : Behind false (b :: bs) (b + key.length + 1) r later) :
    LineServes b bs (spaces b ++ (key ++ ':' :: r)) (.key :: .scalar key .plain :: .value :: later) :=
  .of_spot (startsToken_of_allowsPlain hk.allowed hk.nonempty) (serves_key hk (.none bs) hr h)

theorem LineServes.inlineKey (hk : IsKey key) (hr : startsToken rest)
    (h : Spot.Serves ⟨b :: bs, false, b + key.length + 2, rest⟩ later) :
    LineServes b bs (spaces b ++ (key ++ ':' :: ' ' :: rest)) (.key :: .scalar key .plain :: .value :: later) :=
  .ofKey hk rfl (.space (by omega) hr h)

theorem LineServes.lineKey (hk : IsKey key) (h : LineServes b bs rest later) :
    LineServes b bs (spaces b ++ (key ++ ':' :: '\n' :: rest)) (.key :: .scalar key .plain :: .value :: later) :=
  .ofKey hk rfl (.newLine h)

theorem LineServes.emptyKey (hk : IsKey key) (h : LineServes b bs rest later) :
    LineServes b bs (spaces b ++ (key ++ ':' :: ' ' :: '[' :: ']' :: '\n' :: rest))
      (.key :: .scalar key .plain :: .value :: .flowSequenceStart :: .flowSequenceEnd :: later) :=
  .inlineKey hk rfl (serves_emptyFlow (.newLine h))

theorem LineServes.ofEntry (hr : endsWord r) (h : Behind true (b :: bs) (b + 1) r later) :
    LineServes b bs (spaces b ++ '-' :: r) (.blockEntry :: later) :=
  .of_spot rfl (serves_blockEntry hr h)

end Scanner

end BraceParams.Yaml
