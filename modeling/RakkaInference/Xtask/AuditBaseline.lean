import RakkaInference.Xtask.Audit

/-! The baseline of the audit: reading a crate back from what was written, and what the check refuses against it. -/
namespace RakkaInference.Xtask
open Machine

section Tokens
variable {ws : List Char} {k : String} {v : ℕ} {c : CrateCounts}

/-- A token reads as the count it was written for, whatever white space is around it. -/
theorem readCount_token (ws ws' : List Char) (hws : ∀ x ∈ ws, isWhitespace x) (hws' : ∀ x ∈ ws', isWhitespace x)
    (hq : '"' ∉ k.toList) (he : ':' ∉ k.toList) (hv : v < 2^64) :
    readCount c (ws++((quoted k.toList++(": ".toList++decimal v))++ws')) = some (c.set k v) := by
  have hdigit : ∀ x ∈ decimal v, isWhitespace x = false := fun x hx =>
    isWhitespace_of_isDigit (isDigit_of_mem_decimal hx)
  have htoken : trim (ws++((quoted k.toList++(": ".toList++decimal v))++ws')) =
      quoted k.toList++(": ".toList++decimal v) := by
    apply trim_append ws ws' _ hws hws'
    · intro x hx
      obtain rfl : '"' = x := by simpa [quoted] using hx
      rfl
    · intro x hx
      have hne : decimal v ≠ [] := Nat.toDigits_ne_nil
      rw [← List.append_assoc,List.getLast?_append_of_ne_nil _ hne] at hx
      exact hdigit x (List.mem_of_getLast? hx)
  have hcolon : ':' ∉ quoted k.toList := by simp [quoted,he]
  have hsplit : splitOnce ':' (quoted k.toList++(": ".toList++decimal v)) = some (quoted k.toList,' '::decimal v) :=
    splitOnce_append hcolon _
  have hkey : trim (quoted k.toList) = quoted k.toList := by
    have hquote : isWhitespace '"' = false := rfl
    have h := trim_append [] [] (quoted k.toList) (by simp) (by simp) (by simp [quoted,hquote])
      (by simp [quoted,hquote,List.getLast?_cons])
    simpa using h
  have hval : trim (' '::decimal v) = decimal v := by
    have h := trim_append [' '] [] (decimal v) (by simp [isWhitespace]) (by simp)
      (fun x hx => hdigit x (List.mem_of_head? hx)) (fun x hx => hdigit x (List.mem_of_getLast? hx))
    simpa using h
  simp only [readCount,htoken,hsplit,hkey,hval,parseUnsigned_decimal hv,Option.map_some]
  rw [quoted,trimMatches_quoted hq,String.ofList_toList]

/-- What a count is written as. -/
def token (indent : List Char) (kv : String × ℕ) : List Char :=
  '\n'::(indent++(quoted kv.1.toList++(": ".toList++decimal kv.2)))

/-- The keys of the counts are plain, and the counts are words. -/
def Readable (kv : String × ℕ) : Prop := '"' ∉ kv.1.toList ∧ ':' ∉ kv.1.toList ∧ ',' ∉ kv.1.toList ∧
  '\x7b' ∉ kv.1.toList ∧ '\x7d' ∉ kv.1.toList ∧ kv.2 < 2^64

theorem foldlM_readCount (hws : ∀ x ∈ ws, isWhitespace x) {l : List (String × ℕ)} (h : ∀ kv ∈ l, Readable kv)
    (c : CrateCounts) : (l.map (token ws)).foldlM readCount c = some (l.foldl (fun c kv => c.set kv.1 kv.2) c) := by
  induction l generalizing c with
  | nil => rfl
  | cons kv l ih =>
    rw [List.forall_mem_cons] at h
    obtain ⟨hq,he,-,-,-,hv⟩ := h.1
    have hread := readCount_token (c := c) ('\n'::ws) [] (by simpa [isWhitespace] using hws) (by simp) hq he hv
    rw [List.append_nil] at hread
    rw [List.map_cons,List.foldlM_cons,token,← List.cons_append,hread]
    exact ih h.2 _

end Tokens

section Lists
variable {α : Type*} (sep : List α)

theorem intercalate_append_cons (as : List (List α)) (x : List α) (bs : List (List α)) :
    sep.intercalate (as++x::bs) = (as.flatMap fun a => a++sep)++(x++bs.flatMap fun b => sep++b) := by
  induction as with
  | nil =>
    rw [List.nil_append,List.flatMap_nil,List.nil_append]
    induction bs generalizing x with
    | nil => simp
    | cons b bs ih => rw [List.intercalate_cons_cons,ih,List.flatMap_cons,List.append_assoc,List.append_assoc]
  | cons a as ih =>
    obtain ⟨y,ys,hy⟩ : ∃ y ys, as++x::bs = y::ys := List.exists_cons_of_ne_nil (by simp)
    rw [List.cons_append,hy,List.intercalate_cons_cons,← hy,ih,List.flatMap_cons]
    simp only [List.append_assoc]

theorem mem_intercalate {sep : List α} {ls : List (List α)} {x : α} (h : x ∈ sep.intercalate ls) :
    x ∈ sep ∨ ∃ l ∈ ls, x ∈ l := by
  induction ls with
  | nil => simp [List.intercalate] at h
  | cons l ls ih =>
    cases ls with
    | nil => exact .inr ⟨l,List.mem_cons_self,by simpa [List.intercalate] using h⟩
    | cons m ls =>
      rw [List.intercalate_cons_cons] at h
      rcases List.mem_append.mp h with h | h
      · rcases List.mem_append.mp h with h | h
        · exact .inr ⟨l,List.mem_cons_self,h⟩
        · exact .inl h
      · rcases ih h with h | ⟨n,hn,hx⟩
        · exact .inl h
        · exact .inr ⟨n,List.mem_cons_of_mem l hn,hx⟩

end Lists

section Crate
variable {indent tail : List Char} {c : CrateCounts}

def Fits (c : CrateCounts) : Prop := ∀ kv ∈ c.kvs, kv.2 < 2^64

/-- The keys of the counts. -/
def metricKeys : List String := (({} : CrateCounts).kvs).map Prod.fst

theorem mem_metricKeys {kv : String × ℕ} (h : kv ∈ c.kvs) : kv.1 ∈ metricKeys := by
  have hmem : kv.1 ∈ c.kvs.map Prod.fst := List.mem_map_of_mem h
  exact hmem

theorem readable_of_fits (hc : Fits c) : ∀ kv ∈ c.kvs, Readable kv := by
  have hplain : (metricKeys.all fun k => ['"',':',',','\x7b','\x7d'].all fun x => !k.toList.contains x) =
      true := by decide
  intro kv hkv
  have hk := List.all_eq_true.mp hplain kv.1 (mem_metricKeys hkv)
  simp only [List.all_cons,List.all_nil,Bool.and_true,Bool.and_eq_true,Bool.not_eq_true',List.contains_eq_mem,
    decide_eq_false_iff_not] at hk
  exact ⟨hk.1,hk.2.1,hk.2.2.1,hk.2.2.2.1,hk.2.2.2.2,hc kv hkv⟩

theorem foldl_set_kvs (c : CrateCounts) : c.kvs.foldl (fun c kv => c.set kv.1 kv.2) {} = c := by
  simp [CrateCounts.kvs,CrateCounts.checked,CrateCounts.set]

theorem not_mem_token {x : Char} {kv : String × ℕ} (hx : isWhitespace x = false)
    (hd : x.isDigit = false) (hq : x ≠ '"') (he : x ≠ ':') (hk : x ∉ kv.1.toList)
    (hi : ∀ y ∈ indent, isWhitespace y) : x ∉ token indent kv := by
  have hxi : x ∉ indent := fun hmem => by rw [hi x hmem] at hx; contradiction
  have hspace : x ≠ ' ' := by rintro rfl; contradiction
  have hnl : x ≠ '\n' := by rintro rfl; contradiction
  simp [token,quoted,hxi,hspace,hnl,hq,he,hk,not_mem_decimal hd]

/-- The body of a crate reads as the counts that were written. -/
theorem readBody (hc : Fits c) (hi : ∀ x ∈ indent, isWhitespace x) (ht : ∀ x ∈ tail, isWhitespace x) :
    ((writeCounts c indent++tail).splitOn ',').foldlM readCount {} = some c := by
  have hread := readable_of_fits hc
  obtain ⟨init,last,hkvs⟩ : ∃ init last, c.kvs = init++[last] := ⟨c.kvs.dropLast,("dbg_macro",c.dbgMacro),rfl⟩
  have hcomma : ∀ kv ∈ c.kvs, ',' ∉ token indent kv := fun kv hkv =>
    not_mem_token rfl rfl (by decide) (by decide) (hread kv hkv).2.2.1 hi
  have htail : ',' ∉ tail := fun hmem => absurd (ht ',' hmem) Bool.false_ne_true
  have htext : writeCounts c indent++tail = [','].intercalate
      (init.map (token indent)++[token indent last++tail]) := by
    have hw : writeCounts c indent = [','].intercalate (init.map (token indent)++[token indent last]) := by
      rw [writeCounts,hkvs,List.map_append]
      rfl
    rw [hw,intercalate_append_cons,intercalate_append_cons]
    simp only [List.flatMap_nil,List.append_nil,List.append_assoc]
  have hsplit : (writeCounts c indent++tail).splitOn ',' = init.map (token indent)++[token indent last++tail] := by
    rw [htext]
    apply List.splitOn_intercalate
    · intro l hl
      rcases List.mem_append.mp hl with hl | hl
      · obtain ⟨kv,hkv,rfl⟩ := List.mem_map.mp hl
        exact hcomma kv (by rw [hkvs]; exact List.mem_append_left _ hkv)
      · rw [List.mem_singleton.mp hl,List.mem_append,not_or]
        exact ⟨hcomma last (by rw [hkvs]; simp),htail⟩
    · simp
  have hlast := hread last (by rw [hkvs]; simp)
  have hone : ∀ d, readCount d (token indent last++tail) = some (d.set last.1 last.2) := by
    intro d
    have h := readCount_token (c := d) ('\n'::indent) tail (by simpa [isWhitespace] using hi) ht hlast.1 hlast.2.1
      hlast.2.2.2.2.2
    rw [← h,token]
    simp only [List.cons_append,List.append_assoc]
  rw [hsplit,List.foldlM_append,
    foldlM_readCount hi (fun kv hkv => hread kv (by rw [hkvs]; exact List.mem_append_left _ hkv))]
  simp only [Option.bind_eq_bind,Option.bind_some,List.foldlM_cons,hone,List.foldlM_nil]
  have hfold := foldl_set_kvs c
  rw [hkvs,List.foldl_append] at hfold
  exact congrArg some hfold

/-- Where the key is found first, the counts behind it are read. -/
theorem parseJsonCrate_of_find {name a rest : List Char} (hc : Fits c) (hi : ∀ x ∈ indent, isWhitespace x)
    (ht : ∀ x ∈ tail, isWhitespace x)
    (h : find (quoted name++[':'])
        (a++((quoted name++[':'])++(" \x7b".toList++((writeCounts c indent++tail)++ '\x7d'::rest)))) =
      some a.length) :
    parseJsonCrate (a++((quoted name++[':'])++(" \x7b".toList++((writeCounts c indent++tail)++ '\x7d'::rest))))
        name =
      some c := by
  have hbody : '\x7d' ∉ writeCounts c indent++tail := by
    rw [List.mem_append,not_or]
    refine ⟨?_,fun hmem => absurd (ht '\x7d' hmem) Bool.false_ne_true⟩
    intro hmem
    rcases mem_intercalate hmem with hsep | ⟨l,hl,hx⟩
    · simp at hsep
    · obtain ⟨kv,hkv,rfl⟩ := List.mem_map.mp hl
      exact not_mem_token rfl rfl (by decide) (by decide) (readable_of_fits hc kv hkv).2.2.2.2.1 hi hx
  have hdrop : ∀ x : List Char, (a++((quoted name++[':'])++x)).drop (a.length+(quoted name++[':']).length) = x := by
    intro x
    rw [← List.append_assoc,← List.length_append,List.drop_left]
  have hopen : ∀ x : List Char, find ['\x7b'] (" \x7b".toList++x) = some 1 := by
    intro x
    have hskip : Skips ['\x7b'] [' '] := skips_of_not_mem (by decide)
    exact hskip.find_key x
  have hclose : find ['\x7d'] ((" \x7b".toList++((writeCounts c indent++tail)++ '\x7d'::rest)).drop 1) =
      some ((writeCounts c indent++tail).length+1) := by
    have hskip : Skips ['\x7d'] ('\x7b'::(writeCounts c indent++tail)) :=
      skips_of_not_mem (by rw [List.mem_cons,not_or]; exact ⟨by decide,hbody⟩)
    exact hskip.find_key rest
  have htake : ((" \x7b".toList++((writeCounts c indent++tail)++ '\x7d'::rest)).take
      (1+((writeCounts c indent++tail).length+1))).drop (1+1) = writeCounts c indent++tail := by
    have hlen : 1+((writeCounts c indent++tail).length+1) = (writeCounts c indent++tail).length+1+1 := by omega
    rw [hlen]
    exact List.take_left
  simp only [parseJsonCrate,h,Option.bind_eq_bind,Option.bind_some,hdrop,hopen,hclose,htake]
  exact readBody hc hi ht

end Crate

section Text
variable {perCrate : List (List Char × CrateCounts)} {total c : CrateCounts} {name indent rest : List Char}

/-- The name of a crate that no other key of the baseline is taken for. -/
structure Plain (name : List Char) : Prop where
  quote : '"' ∉ name
  colon : ':' ∉ name
  reserved : ∀ k ∈ "crates"::metricKeys, k.toList ≠ name

theorem quoted_append (k : List Char) : quoted k++[':'] = quotedKey '"' ':' k := by
  simp [quoted,quotedKey]

theorem skips_plain {s : List Char} (h : '"' ∉ s) : Skips (quotedKey '"' ':' name) s := skips_of_not_mem h

theorem skips_key {k : List Char} (hname : Plain name) (hk : '"' ∉ k) (hne : k ≠ name) :
    Skips (quotedKey '"' ':' name) (quotedKey '"' ':' k) :=
  skips_quotedKey (by decide) hname.quote hname.colon hk hne

/-- No metric is taken for the name of a crate. -/
theorem skips_writeCounts (hname : Plain name) (hc : Fits c) (hi : ∀ x ∈ indent, isWhitespace x) :
    Skips (quotedKey '"' ':' name) (writeCounts c indent) := by
  have hindent : '"' ∉ '\n'::indent := by
    rw [List.mem_cons,not_or]
    exact ⟨by decide,fun hmem => absurd (hi '"' hmem) Bool.false_ne_true⟩
  apply skips_intercalate (skips_plain (by decide))
  intro l hl
  obtain ⟨kv,hkv,rfl⟩ := List.mem_map.mp hl
  have hkey := hname.reserved kv.1 (List.mem_cons_of_mem _ (mem_metricKeys hkv))
  have hval : '"' ∉ ' '::decimal kv.2 := by
    rw [List.mem_cons,not_or]
    exact ⟨by decide,not_mem_decimal rfl⟩
  have htoken : token indent kv = ('\n'::indent)++(quotedKey '"' ':' kv.1.toList++ ' '::decimal kv.2) := by
    simp [token,quoted,quotedKey]
  have hskip := (skips_plain hindent).append
    ((skips_key hname (readable_of_fits hc kv hkv).1 hkey).append (skips_plain hval))
  rw [← htoken] at hskip
  exact hskip

/-- What is written for one crate. -/
def entry (p : List Char × CrateCounts) : List Char :=
  "\n    ".toList++(quoted p.1++(": \x7b".toList++(writeCounts p.2 "      ".toList++"\n    \x7d".toList)))

theorem auditJson_eq (perCrate : List (List Char × CrateCounts)) (total : CrateCounts) : auditJson perCrate total =
    ("\x7b\n  ".toList++((quoted "crates".toList++[':'])++" \x7b".toList))++([','].intercalate (perCrate.map entry)++
      ("\n  \x7d,\n  ".toList++((quoted "total".toList++[':'])++(" \x7b".toList++
        ((writeCounts total "    ".toList++"\n  ".toList)++ '\x7d'::"\n\x7d\n".toList))))) := by
  have hhead : "\x7b\n  \"crates\": \x7b".toList =
      "\x7b\n  ".toList++((quoted "crates".toList++[':'])++" \x7b".toList) := by
    decide
  have hmid : "\n  \x7d,\n  \"total\": \x7b".toList =
      "\n  \x7d,\n  ".toList++((quoted "total".toList++[':'])++" \x7b".toList) := by
    decide
  have hend : "\n  \x7d\n\x7d\n".toList = "\n  ".toList++ '\x7d'::"\n\x7d\n".toList := by
    decide
  have hentries : perCrate.map
      (fun p => "\n    ".toList++(quoted p.1++(": \x7b".toList++(writeCounts p.2 "      ".toList++
        "\n    \x7d".toList)))) = perCrate.map entry := List.map_congr_left fun p _ => by rw [entry]
  unfold auditJson
  rw [hentries]
  simp only [hhead,hmid,hend,List.append_assoc,List.cons_append]

theorem entry_eq (p : List Char × CrateCounts) : entry p = "\n    ".toList++((quoted p.1++[':'])++(" \x7b".toList++
    ((writeCounts p.2 "      ".toList++"\n    ".toList)++['\x7d']))) := by
  have hopen : ": \x7b".toList = [':']++" \x7b".toList := by decide
  have hend : "\n    \x7d".toList = "\n    ".toList++['\x7d'] := by decide
  rw [entry,hopen,hend]
  simp only [List.append_assoc]

theorem skips_entry (hname : Plain name) {p : List Char × CrateCounts} (hq : '"' ∉ p.1) (hc : Fits p.2)
    (hne : p.1 ≠ name) : Skips (quotedKey '"' ':' name) (entry p) := by
  have hopen : Skips (quotedKey '"' ':' name) "\n    ".toList := skips_plain (by decide)
  have hbrace : Skips (quotedKey '"' ':' name) " \x7b".toList := skips_plain (by decide)
  have hcounts : Skips (quotedKey '"' ':' name) (writeCounts p.2 "      ".toList) :=
    skips_writeCounts hname hc (forall_isWhitespace rfl)
  have hclose : Skips (quotedKey '"' ':' name) ['\x7d'] := skips_plain (by decide)
  rw [entry_eq,quoted_append]
  exact hopen.append ((skips_key hname hq hne).append (hbrace.append ((hcounts.append hopen).append hclose)))

theorem skips_head (hname : Plain name) : Skips (quotedKey '"' ':' name)
    ("\x7b\n  ".toList++((quoted "crates".toList++[':'])++" \x7b".toList)) := by
  rw [quoted_append]
  have hcrates := hname.reserved "crates" List.mem_cons_self
  exact (skips_plain (by decide)).append ((skips_key hname (by decide) hcrates).append (skips_plain (by decide)))

/-- What is written reads back: each crate's own counts, nothing for a crate that was not there, but the totals
under their own key. -/
theorem parseJsonCrate_auditJson (hquote : ∀ p ∈ perCrate, '"' ∉ p.1) (hfits : ∀ p ∈ perCrate, Fits p.2)
    (htotal : Fits total) (hname : Plain name) : parseJsonCrate (auditJson perCrate total) name =
      (perCrate.lookup name).or (if name = "total".toList then some total else none) := by
  have hhead := skips_head hname
  have hcomma : Skips (quotedKey '"' ':' name) [','] := skips_plain (by decide)
  rw [auditJson_eq]
  generalize "\x7b\n  ".toList++((quoted "crates".toList++[':'])++" \x7b".toList) = head at hhead ⊢
  cases hlookup : perCrate.lookup name with
  | some c =>
    obtain ⟨as,bs,rfl,has⟩ := List.lookup_eq_some_iff.mp hlookup
    have hc : Fits c := hfits (name,c) (by simp)
    have hskip : Skips (quotedKey '"' ':' name) ((as.map entry).flatMap fun e => e++[',']) := by
      apply skips_flatMap
      intro e he
      obtain ⟨p,hp,rfl⟩ := List.mem_map.mp he
      have hne : p.1 ≠ name := fun heq => by simpa [heq] using has p hp
      exact (skips_entry hname (hquote p (by simp [hp])) (hfits p (by simp [hp])) hne).append hcomma
    have hopen : Skips (quotedKey '"' ':' name) "\n    ".toList := skips_plain (by decide)
    have hall := hhead.append (hskip.append hopen)
    have hshape : ∀ after : List Char, ∃ rest, head++([','].intercalate ((as++(name,c)::bs).map entry)++after) =
        (head++(((as.map entry).flatMap fun e => e++[','])++"\n    ".toList))++
          ((quoted name++[':'])++(" \x7b".toList++
            ((writeCounts c "      ".toList++"\n    ".toList)++ '\x7d'::rest))) := by
      intro after
      refine ⟨((bs.map entry).flatMap fun e => [',']++e)++after,?_⟩
      rw [List.map_append,List.map_cons,intercalate_append_cons,entry_eq]
      simp only [List.append_assoc,List.cons_append,List.nil_append]
    obtain ⟨rest,hrest⟩ := hshape _
    rw [hrest]
    apply parseJsonCrate_of_find hc (forall_isWhitespace rfl) (forall_isWhitespace rfl)
    rw [quoted_append]
    exact hall.find_key _
  | none =>
    have hentries : Skips (quotedKey '"' ':' name) ([','].intercalate (perCrate.map entry)) := by
      apply skips_intercalate hcomma
      intro e he
      obtain ⟨p,hp,rfl⟩ := List.mem_map.mp he
      have hne : p.1 ≠ name := by
        intro heq
        have hnot := List.lookup_eq_none_iff.mp hlookup p hp
        rw [heq,bne_self_eq_false] at hnot
        contradiction
      exact skips_entry hname (hquote p hp) (hfits p hp) hne
    have hmid : Skips (quotedKey '"' ':' name) "\n  \x7d,\n  ".toList := skips_plain (by decide)
    have hbefore := hhead.append (hentries.append hmid)
    by_cases heq : name = "total".toList
    · rw [if_pos heq,← heq]
      have hshape : ∀ e after : List Char, head++(e++("\n  \x7d,\n  ".toList++after)) =
          (head++(e++"\n  \x7d,\n  ".toList))++after := by
        intro e after
        simp only [List.append_assoc]
      rw [hshape]
      apply parseJsonCrate_of_find htotal (forall_isWhitespace rfl) (forall_isWhitespace rfl)
      rw [quoted_append]
      exact hbefore.find_key _
    · rw [if_neg heq]
      have hbrace : Skips (quotedKey '"' ':' name) " \x7b".toList := skips_plain (by decide)
      have hcounts : Skips (quotedKey '"' ':' name) (writeCounts total "    ".toList) :=
        skips_writeCounts hname htotal (forall_isWhitespace rfl)
      have hindent : Skips (quotedKey '"' ':' name) "\n  ".toList := skips_plain (by decide)
      have hclose : Skips (quotedKey '"' ':' name) ('\x7d'::"\n\x7d\n".toList) := skips_plain (by decide)
      have hkey := skips_key hname (k := "total".toList) (by decide) (Ne.symm heq)
      have hall := hhead.append (hentries.append (hmid.append (hkey.append (hbrace.append
        ((hcounts.append hindent).append hclose)))))
      rw [← quoted_append "total".toList] at hall
      have hnone := hall.find_eq_none
      rw [← quotedKey,← quoted_append] at hnone
      simp only [parseJsonCrate,hnone]
      rfl

/-- Writing the counts of two crates and reading the second. -/
theorem parseJsonCrate_second :
    let counts : CrateCounts := { files := 3, loc := 1200, unwrapUsed := 10 }
    parseJsonCrate (auditJson [("core".toList,{ dbgMacro := 7 }),("cli".toList,counts)] counts) "cli".toList =
      some counts := by
  intro counts
  have hfits : ∀ c ∈ [counts,{ dbgMacro := 7 }], Fits c := by
    unfold Fits
    decide
  have hname : Plain "cli".toList := ⟨by decide,by decide,by decide⟩
  refine (parseJsonCrate_auditJson (by decide) ?_ (hfits counts (by simp)) hname).trans rfl
  intro p hp
  rcases List.mem_cons.mp hp with rfl | hp
  · exact hfits _ (by simp)
  · rw [List.mem_singleton.mp hp]
    exact hfits _ (by simp)

/-- No metric of the first counts is larger. -/
def Within (c d : CrateCounts) : Prop :=
  List.Forall₂ (fun x y : String × ℕ => x.1 = y.1 ∧ x.2 ≤ y.2) c.checked d.checked

theorem checkMetric_eq_nil_iff {crateName : List Char} {metric : String} {m n : ℕ} :
    checkMetric crateName metric m n = [] ↔ m ≤ n := by
  unfold checkMetric
  split
  case isTrue h => simp [Nat.not_le.mpr h]
  case isFalse h => simpa using h

/-- A crate has no regressions when none of its metrics is larger. -/
theorem flatMap_checkMetric_eq_nil_iff {crateName : List Char} {d : CrateCounts} :
    (c.checked.zip d.checked).flatMap (fun m => checkMetric crateName m.1.1 m.1.2 m.2.2) = [] ↔ Within c d := by
  simp [CrateCounts.checked,Within,checkMetric_eq_nil_iff]

/-- The check passes exactly when no crate has more in any checked metric than the counts that were written, a new
crate being compared with zeros. -/
theorem auditCheck_iff {now : List (List Char × CrateCounts)} (hquote : ∀ p ∈ perCrate, '"' ∉ p.1)
    (hfits : ∀ p ∈ perCrate, Fits p.2) (htotal : Fits total) (hnow : ∀ p ∈ now, Plain p.1 ∧ p.1 ≠ "total".toList) :
    auditCheck now (auditJson perCrate total) = .ok () ↔ ∀ p ∈ now, Within p.2 ((perCrate.lookup p.1).getD {}) := by
  have hread : ∀ p ∈ now, parseJsonCrate (auditJson perCrate total) p.1 = perCrate.lookup p.1 := by
    intro p hp
    rw [parseJsonCrate_auditJson hquote hfits htotal (hnow p hp).1,if_neg (hnow p hp).2,Option.or_none]
  have hgate : auditCheck now (auditJson perCrate total) = .ok () ↔
      regressions now (auditJson perCrate total) = [] := by
    simp [auditCheck]
  rw [hgate,regressions,List.flatMap_eq_nil_iff]
  constructor
  · intro h p hp
    have hone := h p hp
    rw [hread p hp] at hone
    exact flatMap_checkMetric_eq_nil_iff.mp hone
  · intro h p hp
    rw [hread p hp]
    exact flatMap_checkMetric_eq_nil_iff.mpr (h p hp)

/-- A crate that the baseline does not have. -/
theorem auditCheck_newcomer :
    (auditCheck [("cli".toList,{ files := 9 })] (auditJson [("core".toList,{ dbgMacro := 7 })] {}) = .ok () ↔
      ∀ p ∈ [("cli".toList,({ files := 9 } : CrateCounts))],
        Within p.2 (([("core".toList,({ dbgMacro := 7 } : CrateCounts))].lookup p.1).getD {})) := by
  have hfits : ∀ c ∈ [({} : CrateCounts),{ dbgMacro := 7 }], Fits c := by
    unfold Fits
    decide
  have hname : Plain "cli".toList := ⟨by decide,by decide,by decide⟩
  apply auditCheck_iff (by decide) ?_ (hfits _ (by simp)) ?_
  · intro p hp
    rw [List.mem_singleton.mp hp]
    exact hfits _ (by simp)
  · intro p hp
    rw [List.mem_singleton.mp hp]
    exact ⟨hname,by decide⟩

end Text
end RakkaInference.Xtask
