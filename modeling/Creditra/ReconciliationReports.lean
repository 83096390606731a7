import Creditra.Reconciliation

/-!
# What a reconciliation reports

A list of wallets is proper when every address is non-blank and no two agree
after trimming. On proper lists the comparison runs to its end and its report
is a function of the two lists; on any others, or when a fetch fails, the
result names an error. Either way the call resolves, unless a fetch rejects with
a value that no text can be made of: the handler then throws itself.
-/
namespace Creditra.ReconciliationReports
open DecimalStrings InsertionMaps JsNumbers JsStrings StellarDiagnostics Reconciliation

/-! ## Trimmed texts -/

theorem trimChars_eq_rdropWhile (cs : List Char) :
    trimChars cs = (cs.dropWhile isWhiteSpace).rdropWhile isWhiteSpace := rfl

theorem dropWhile_trimChars (cs : List Char) :
    (trimChars cs).dropWhile isWhiteSpace = trimChars cs := by
  rw [List.dropWhile_eq_self_iff]
  intro hpos hspace
  have hfront : trimChars cs <+: cs.dropWhile isWhiteSpace := List.rdropWhile_prefix _ _
  have hlt : 0 < (cs.dropWhile isWhiteSpace).length := Nat.lt_of_lt_of_le hpos hfront.length_le
  have hhead := (List.dropWhile_eq_self_iff (p := isWhiteSpace)).mp
    (List.dropWhile_idempotent isWhiteSpace cs) hlt
  apply hhead
  rw [← hspace]
  congr 1
  exact (hfront.getElem hpos).symm

theorem trim_trim (s : String) : trim (trim s) = trim s := by
  unfold trim
  rw [String.toList_ofList,trimChars_eq_rdropWhile (trimChars s.toList),dropWhile_trimChars,
    trimChars_eq_rdropWhile,List.rdropWhile_idempotent]

theorem walletKey_eq (walletAddress : String) :
    walletKey walletAddress =
      if trim walletAddress = "" then .error emptyWallet else .ok (trim walletAddress) := by
  unfold walletKey
  simp only [length_eq_zero_iff]

theorem walletKey_ok {walletAddress : String} (h : trim walletAddress ≠ "") :
    walletKey walletAddress = .ok (trim walletAddress) := by
  rw [walletKey_eq,if_neg h]

/-! ## Duplicates -/

def NoBlank (wallets : List String) : Prop := ∀ w ∈ wallets, trim w ≠ ""

def Proper (wallets : List String) : Prop := NoBlank wallets ∧ (wallets.map trim).Nodup

instance (wallets : List String) : Decidable (Proper wallets) :=
  inferInstanceAs (Decidable ((∀ w ∈ wallets, trim w ≠ "") ∧ (wallets.map trim).Nodup))

theorem mem_add {keys : List String} {key k : String} : k ∈ add keys key ↔ k ∈ keys ∨ k = key := by
  unfold add
  split
  · rename_i h
    constructor
    · exact .inl
    · rintro (hk | rfl)
      · exact hk
      · exact h
  · simp

theorem duplicatesFrom_blank {wallets : List String} (h : ¬ NoBlank wallets)
    (seen duplicates : List String) : duplicatesFrom seen duplicates wallets = .error emptyWallet := by
  induction wallets generalizing seen duplicates with
  | nil => exact absurd (fun w hw => nomatch hw) h
  | cons w rest ih =>
      rw [duplicatesFrom,walletKey_eq]
      by_cases hw : trim w = ""
      · rw [if_pos hw]
      · rw [if_neg hw]
        apply ih
        intro hrest
        apply h
        intro v hv
        rcases List.mem_cons.mp hv with rfl | hv
        · exact hw
        · exact hrest v hv

theorem duplicatesFrom_noBlank {wallets : List String} (h : NoBlank wallets)
    (seen duplicates : List String) :
    ∃ found, duplicatesFrom seen duplicates wallets = .ok found ∧ ∀ k, k ∈ found ↔
      k ∈ duplicates ∨ k ∈ seen ∧ k ∈ wallets.map trim ∨ 2 ≤ (wallets.map trim).count k := by
  induction wallets generalizing seen duplicates with
  | nil => exact ⟨duplicates,rfl,by simp⟩
  | cons w rest ih =>
      have hrest : NoBlank rest := fun v hv => h v (List.mem_cons_of_mem w hv)
      rw [duplicatesFrom,walletKey_ok (h w List.mem_cons_self)]
      rcases ih hrest (add seen (trim w))
        (if trim w ∈ seen then add duplicates (trim w) else duplicates) with ⟨found,hrun,hfound⟩
      refine ⟨found,hrun,?_⟩
      intro k
      have hdup : k ∈ (if trim w ∈ seen then add duplicates (trim w) else duplicates) ↔
          k ∈ duplicates ∨ trim w ∈ seen ∧ k = trim w := by
        split
        · rename_i hseen
          simp [mem_add,hseen]
        · rename_i hseen
          simp [hseen]
      have hpos : 0 < (rest.map trim).count k ↔ k ∈ rest.map trim := List.count_pos_iff
      rw [hfound k,hdup,mem_add,List.map_cons,List.mem_cons,List.count_cons]
      by_cases hk : k = trim w
      · have hcount : (if trim w == k then 1 else 0) = 1 := by simp [hk]
        rw [hcount,← hpos]
        simp only [hk,and_true,or_true,true_and,true_or]
        constructor
        · rintro ((hd | hs) | hr | hr)
          · exact .inl hd
          · exact .inr (.inl hs)
          · exact .inr (.inr (by omega))
          · exact .inr (.inr (by omega))
        · rintro (hd | hs | hr)
          · exact .inl (.inl hd)
          · exact .inl (.inr hs)
          · exact .inr (.inl (by omega))
      · have hcount : (if trim w == k then 1 else 0) = 0 := by simp [Ne.symm hk]
        rw [hcount]
        simp [hk]

theorem findDuplicateWallets_noBlank {wallets : List String} (h : NoBlank wallets) :
    ∃ found, findDuplicateWallets wallets = .ok found ∧
      ∀ k, k ∈ found ↔ 2 ≤ (wallets.map trim).count k := by
  rcases duplicatesFrom_noBlank h [] [] with ⟨found,hrun,hfound⟩
  exact ⟨found,hrun,fun k => by simp [hfound k]⟩

theorem findDuplicateWallets_proper {wallets : List String} (h : Proper wallets) :
    findDuplicateWallets wallets = .ok [] := by
  rcases findDuplicateWallets_noBlank h.1 with ⟨found,hrun,hfound⟩
  have hnil : found = [] := by
    rw [List.eq_nil_iff_forall_not_mem]
    intro k hk
    have hmany := (hfound k).mp hk
    have hone := List.nodup_iff_count_le_one.mp h.2 k
    omega
  rw [hrun,hnil]

theorem proper_of_findDuplicateWallets {wallets : List String}
    (h : findDuplicateWallets wallets = .ok []) : Proper wallets := by
  by_cases hblank : NoBlank wallets
  · rcases findDuplicateWallets_noBlank hblank with ⟨found,hrun,hfound⟩
    have hnil : found = [] := Except.ok.inj (hrun.symm.trans h)
    refine ⟨hblank,List.nodup_iff_count_le_one.mpr ?_⟩
    intro k
    have hk := hfound k
    rw [hnil] at hk
    have hnot : ¬ 2 ≤ (wallets.map trim).count k := fun hmany => nomatch hk.mpr hmany
    omega
  · have hblocked := duplicatesFrom_blank hblank [] []
    exact absurd (hblocked.symm.trans h) (by simp)

/-! ## Maps by wallet -/

theorem keyed_noBlank {α : Type} {wallet : α → String} {items : List α}
    (h : NoBlank (items.map wallet)) :
    keyed wallet items = .ok (items.map fun item => (trim (wallet item),item)) := by
  induction items with
  | nil => rfl
  | cons item rest ih =>
      have hrest : NoBlank (rest.map wallet) := fun v hv => h v (List.mem_cons_of_mem _ hv)
      rw [keyed,walletKey_ok (h _ List.mem_cons_self),ih hrest]
      rfl

def byWallet {α : Type} (wallet : α → String) (items : List α) : InsertionMap String α :=
  .ofEntries (items.map fun item => (trim (wallet item),item))

theorem mapByWallet_proper {α : Type} {wallet : α → String} {items : List α}
    (h : Proper (items.map wallet)) : mapByWallet wallet items = .ok (byWallet wallet items) := by
  rw [mapByWallet,keyed_noBlank h.1]
  rfl

theorem get_byWallet {α : Type} {wallet : α → String} {items : List α}
    (h : Proper (items.map wallet)) {key : String} {item : α} :
    (byWallet wallet items).get key = some item ↔ item ∈ items ∧ trim (wallet item) = key := by
  have hnodup : ((items.map fun item => (trim (wallet item),item)).map Prod.fst).Nodup := by
    have hnodup := h.2
    rw [List.map_map] at hnodup ⊢
    exact hnodup
  rw [byWallet,InsertionMap.get_ofEntries hnodup,List.mem_map]
  constructor
  · rintro ⟨x,hx,he⟩
    cases he
    exact ⟨hx,rfl⟩
  · rintro ⟨hx,rfl⟩
    exact ⟨item,hx,rfl⟩

theorem get_byWallet_eq_none {α : Type} {wallet : α → String} {items : List α}
    (h : Proper (items.map wallet)) {key : String} :
    (byWallet wallet items).get key = none ↔ ∀ item ∈ items, trim (wallet item) ≠ key := by
  rw [Option.eq_none_iff_forall_ne_some]
  constructor
  · intro hnone item hitem hkey
    exact hnone item ((get_byWallet h).mpr ⟨hitem,hkey⟩)
  · intro hnone item hget
    rcases (get_byWallet h).mp hget with ⟨hitem,hkey⟩
    exact hnone item hitem hkey

/-! ## Running the comparison -/

def exec {α : Type} (attempt : Attempt α) (result : ReconciliationResult) :
    Except Rejection α × ReconciliationResult := attempt.run.run result

section Exec
variable {α β : Type} {result result' : ReconciliationResult}

@[simp] theorem exec_pure (a : α) : exec (pure a) result = (.ok a,result) := rfl

@[simp] theorem exec_liftExcept (x : Except Rejection α) :
    exec (liftExcept x) result = (x,result) := by
  cases x <;> rfl

@[simp] theorem exec_modify (f : ReconciliationResult → ReconciliationResult) :
    exec (modify f) result = (.ok (),f result) := rfl

@[simp] theorem exec_get : exec get result = (.ok result,result) := rfl

theorem exec_bind_ok {attempt : Attempt α} {next : α → Attempt β} {a : α}
    (h : exec attempt result = (.ok a,result')) :
    exec (attempt >>= next) result = exec (next a) result' := by
  change exec attempt result = _ at h
  unfold exec at h ⊢
  simp only [ExceptT.run_bind,StateT.run_bind,h]
  rfl

theorem exec_bind_error {attempt : Attempt α} {next : α → Attempt β} {e : Rejection}
    (h : exec attempt result = (.error e,result')) :
    exec (attempt >>= next) result = (.error e,result') := by
  unfold exec at h ⊢
  simp only [ExceptT.run_bind,StateT.run_bind,h]
  rfl

theorem exec_tryCatch (handler : Rejection → Attempt α) (attempt : Attempt α) :
    exec (tryCatch attempt handler) result = match exec attempt result with
      | (.ok a,result') => (.ok a,result')
      | (.error e,result') => exec (handler e) result' := by
  unfold exec
  simp only [tryCatch,tryCatchThe,MonadExceptOf.tryCatch,ExceptT.tryCatch,ExceptT.run_mk,
    StateT.run_bind]
  change (attempt.run.run result >>= _) = _
  rcases attempt.run.run result with ⟨_ | _,_⟩
  · rfl
  · rfl

theorem exec_tryCatch_ok (handler : Rejection → Attempt α) {attempt : Attempt α} {a : α}
    (h : exec attempt result = (.ok a,result')) :
    exec (tryCatch attempt handler) result = (.ok a,result') := by
  rw [exec_tryCatch,h]

theorem exec_tryCatch_error (handler : Rejection → Attempt α) {attempt : Attempt α} {e : Rejection}
    (h : exec attempt result = (.error e,result')) :
    exec (tryCatch attempt handler) result = exec (handler e) result' := by
  rw [exec_tryCatch,h]

@[simp] theorem exec_pushMismatches (mismatches : List ReconciliationMismatch) :
    exec (pushMismatches mismatches) result =
      (.ok (),{ result with mismatches := result.mismatches ++ mismatches }) := rfl

@[simp] theorem exec_pushError (error : String) :
    exec (pushError error) result = (.ok (),{ result with errors := result.errors ++ [error] }) :=
  rfl

end Exec

theorem exec_compareFields {line : StoredLine} {record : OnChainCreditRecord}
    (hline : trim line.walletAddress ≠ "") (hrecord : trim record.walletAddress ≠ "")
    (result : ReconciliationResult) :
    exec (compareFields line record) result = (.ok (),{ result with
      mismatches := result.mismatches ++
        (compareWallets line record (trim line.walletAddress) (trim record.walletAddress) ++
          compareValues line record) }) := by
  unfold compareFields
  rw [walletKey_ok hline,walletKey_ok hrecord,exec_bind_ok (exec_liftExcept _),
    exec_bind_ok (exec_liftExcept _),exec_bind_ok (exec_pushMismatches _),exec_pushMismatches]
  simp only [List.append_assoc]

/-- What one database line contributes. -/
def lineReport (chain : List OnChainCreditRecord) (line : StoredLine) :
    List ReconciliationMismatch :=
  match (byWallet OnChainCreditRecord.walletAddress chain).get (trim line.walletAddress) with
  | none => [missingOnChain line]
  | some record =>
      compareWallets line record (trim line.walletAddress) (trim record.walletAddress) ++
        compareValues line record

theorem exec_checkLines {chain : List OnChainCreditRecord} {lines : List StoredLine}
    (hchain : Proper (chain.map OnChainCreditRecord.walletAddress))
    (hlines : NoBlank (lines.map StoredLine.walletAddress)) (result : ReconciliationResult) :
    exec (checkLines (byWallet OnChainCreditRecord.walletAddress chain) lines) result =
      (.ok (),{ result with
        mismatches := result.mismatches ++ lines.flatMap (lineReport chain) }) := by
  induction lines generalizing result with
  | nil => simp [checkLines]
  | cons line rest ih =>
      have hline : trim line.walletAddress ≠ "" := hlines _ List.mem_cons_self
      have hrest : NoBlank (rest.map StoredLine.walletAddress) := fun v hv =>
        hlines v (List.mem_cons_of_mem _ hv)
      rw [checkLines,walletKey_ok hline,exec_bind_ok (exec_liftExcept _),List.flatMap_cons,
        lineReport]
      cases hget : (byWallet OnChainCreditRecord.walletAddress chain).get
          (trim line.walletAddress) with
      | none =>
          rw [exec_bind_ok (exec_pushMismatches _),ih hrest]
          simp only [List.append_assoc]
      | some record =>
          have hmem := ((get_byWallet hchain).mp hget).1
          have hrecord := hchain.1 _ (List.mem_map_of_mem hmem)
          rw [exec_bind_ok (exec_compareFields hline hrecord _),ih hrest]
          simp only [List.append_assoc]

/-- The records that no database line stands for. -/
def missingRecords (db : List StoredLine) (chain : List OnChainCreditRecord) :
    List ReconciliationMismatch :=
  (chain.filter fun record =>
    ((byWallet StoredLine.walletAddress db).get (trim record.walletAddress)).isNone).map missingInDb

theorem exec_checkRecords (db : List StoredLine) {chain : List OnChainCreditRecord}
    (hchain : NoBlank (chain.map OnChainCreditRecord.walletAddress))
    (result : ReconciliationResult) :
    exec (checkRecords (byWallet StoredLine.walletAddress db) chain) result =
      (.ok (),{ result with
        mismatches := result.mismatches ++ missingRecords db chain }) := by
  induction chain generalizing result with
  | nil => simp [checkRecords,missingRecords]
  | cons record rest ih =>
      have hrest : NoBlank (rest.map OnChainCreditRecord.walletAddress) := fun v hv =>
        hchain v (List.mem_cons_of_mem _ hv)
      rw [checkRecords,walletKey_ok (hchain _ List.mem_cons_self),
        exec_bind_ok (exec_liftExcept _),missingRecords,List.filter_cons]
      split
      · rw [exec_bind_ok (exec_pushMismatches _),ih hrest]
        simp only [List.map_cons,List.append_assoc,missingRecords,List.singleton_append]
      · exact ih hrest result

theorem exec_pushDuplicates (message : String) (wallets : List String)
    (result : ReconciliationResult) :
    exec (pushDuplicates message wallets) result = (.ok (),{ result with
      errors := result.errors ++
        wallets.map fun wallet => reconciliationDiagnostic (message ++ wallet) }) := by
  induction wallets generalizing result with
  | nil => simp [pushDuplicates]
  | cons wallet rest ih =>
      rw [pushDuplicates,exec_bind_ok (exec_pushError _),ih]
      simp only [List.map_cons,List.append_assoc,List.singleton_append]

/-- The report on two proper lists. -/
def report (db : List StoredLine) (chain : List OnChainCreditRecord) :
    List ReconciliationMismatch :=
  db.flatMap (lineReport chain) ++ missingRecords db chain

theorem exec_compareSources_proper {db : List StoredLine} {chain : List OnChainCreditRecord}
    (hdb : Proper (db.map StoredLine.walletAddress))
    (hchain : Proper (chain.map OnChainCreditRecord.walletAddress)) (now : ℤ) :
    exec (compareSources (.ok db) (.ok chain)) { timestamp := now } =
      (.ok (),⟨now,max db.length chain.length,report db chain,[]⟩) := by
  unfold compareSources
  rw [exec_bind_ok (exec_liftExcept _),exec_bind_ok (exec_liftExcept _),
    exec_bind_ok (exec_modify _),findDuplicateWallets_proper hdb,findDuplicateWallets_proper hchain,
    exec_bind_ok (exec_liftExcept _),exec_bind_ok (exec_liftExcept _),
    exec_bind_ok (exec_pushDuplicates _ _ _),exec_bind_ok (exec_pushDuplicates _ _ _),
    exec_bind_ok exec_get]
  simp only [List.map_nil,List.append_nil,ne_eq,not_true_eq_false,if_false]
  rw [mapByWallet_proper hdb,mapByWallet_proper hchain,
    exec_bind_ok (exec_liftExcept _),exec_bind_ok (exec_liftExcept _),
    exec_bind_ok (exec_checkLines hchain hdb.1 _),exec_checkRecords db hchain.1]
  rfl

def duplicateDb (wallet : String) : String :=
  reconciliationDiagnostic ("Duplicate database credit lines for borrower wallet " ++ wallet)

def duplicateOnChain (wallet : String) : String :=
  reconciliationDiagnostic ("Duplicate on-chain credit records for borrower wallet " ++ wallet)

section Improper
variable {db : List StoredLine} {chain : List OnChainCreditRecord}

theorem exec_compareSources_duplicates {dbWallets chainWallets : List String}
    (hdb : findDuplicateWallets (db.map StoredLine.walletAddress) = .ok dbWallets)
    (hchain : findDuplicateWallets (chain.map OnChainCreditRecord.walletAddress) =
      .ok chainWallets) (hsome : dbWallets ≠ [] ∨ chainWallets ≠ []) (now : ℤ) :
    exec (compareSources (.ok db) (.ok chain)) { timestamp := now } =
      (.ok (),⟨now,max db.length chain.length,[],
        dbWallets.map duplicateDb ++ chainWallets.map duplicateOnChain⟩) := by
  unfold compareSources
  rw [exec_bind_ok (exec_liftExcept _),exec_bind_ok (exec_liftExcept _),
    exec_bind_ok (exec_modify _),hdb,hchain,exec_bind_ok (exec_liftExcept _),
    exec_bind_ok (exec_liftExcept _),exec_bind_ok (exec_pushDuplicates _ _ _),
    exec_bind_ok (exec_pushDuplicates _ _ _),exec_bind_ok exec_get]
  rw [if_pos (by rcases hsome with hsome | hsome <;> simp [hsome])]
  rfl

theorem exec_compareSources_blank
    (h : ¬ NoBlank (db.map StoredLine.walletAddress) ∨
      ¬ NoBlank (chain.map OnChainCreditRecord.walletAddress)) (now : ℤ) :
    exec (compareSources (.ok db) (.ok chain)) { timestamp := now } =
      (.error emptyWallet,⟨now,max db.length chain.length,[],[]⟩) := by
  unfold compareSources
  rw [exec_bind_ok (exec_liftExcept _),exec_bind_ok (exec_liftExcept _),
    exec_bind_ok (exec_modify _)]
  by_cases hdb : NoBlank (db.map StoredLine.walletAddress)
  · obtain ⟨dbWallets,hrun,-⟩ := findDuplicateWallets_noBlank hdb
    have hchain : findDuplicateWallets (chain.map OnChainCreditRecord.walletAddress) =
        .error emptyWallet := duplicatesFrom_blank (h.resolve_left (not_not_intro hdb)) [] []
    rw [hrun,hchain,exec_bind_ok (exec_liftExcept _)]
    exact exec_bind_error (exec_liftExcept _)
  · have hblocked : findDuplicateWallets (db.map StoredLine.walletAddress) =
        .error emptyWallet := duplicatesFrom_blank hdb [] []
    rw [hblocked]
    exact exec_bind_error (exec_liftExcept _)

theorem emptyWallet_printable : emptyWallet.Printable := by
  intro e h
  cases h

theorem exec_compareSources_improper
    (h : ¬ (Proper (db.map StoredLine.walletAddress) ∧
      Proper (chain.map OnChainCreditRecord.walletAddress))) (now : ℤ) :
    (∃ result, exec (compareSources (.ok db) (.ok chain)) { timestamp := now } =
        (.error emptyWallet,result)) ∨
      ∃ result, exec (compareSources (.ok db) (.ok chain)) { timestamp := now } =
        (.ok (),result) ∧ result.errors ≠ [] := by
  by_cases hblank : NoBlank (db.map StoredLine.walletAddress) ∧
      NoBlank (chain.map OnChainCreditRecord.walletAddress)
  · rcases findDuplicateWallets_noBlank hblank.1 with ⟨dbWallets,hdb,-⟩
    rcases findDuplicateWallets_noBlank hblank.2 with ⟨chainWallets,hchain,-⟩
    have hsome : dbWallets ≠ [] ∨ chainWallets ≠ [] := by
      by_contra hnone
      push Not at hnone
      rw [hnone.1] at hdb
      rw [hnone.2] at hchain
      exact h ⟨proper_of_findDuplicateWallets hdb,proper_of_findDuplicateWallets hchain⟩
    refine .inr ⟨_,exec_compareSources_duplicates hdb hchain hsome now,?_⟩
    rcases hsome with hsome | hsome <;> simp [hsome]
  · rw [not_and_or] at hblank
    exact .inl ⟨_,exec_compareSources_blank hblank now⟩

end Improper

/-! ## What is to be reported -/

/-- The mismatches two lists of records call for: a wallet that only one side
knows, and each compared field in which the two sides of a wallet differ. -/
inductive Expected (db : List StoredLine) (chain : List OnChainCreditRecord) :
    ReconciliationMismatch → Prop
  | missingOnChain (line : StoredLine) (hline : line ∈ db)
      (hnone : ∀ record ∈ chain, trim record.walletAddress ≠ trim line.walletAddress) :
      Expected db chain ⟨line.id,line.walletAddress,.existence,.text "exists",.text "missing",
        .critical⟩
  | missingInDb (record : OnChainCreditRecord) (hrecord : record ∈ chain)
      (hnone : ∀ line ∈ db, trim line.walletAddress ≠ trim record.walletAddress) :
      Expected db chain ⟨record.id,record.walletAddress,.existence,.text "missing",.text "exists",
        .critical⟩
  | walletAddressFormatting (line : StoredLine) (record : OnChainCreditRecord) (hline : line ∈ db)
      (hrecord : record ∈ chain) (hsame : trim record.walletAddress = trim line.walletAddress)
      (hdiffer : line.walletAddress ≠ record.walletAddress) :
      Expected db chain ⟨line.id,trim line.walletAddress,.walletAddressFormatting,
        .text (sanitizeText line.walletAddress),.text (sanitizeText record.walletAddress),.warning⟩
  | creditLimit (line : StoredLine) (record : OnChainCreditRecord) (hline : line ∈ db)
      (hrecord : record ∈ chain) (hsame : trim record.walletAddress = trim line.walletAddress)
      (hdiffer : ¬ SameAmount line.creditLimit record.creditLimit) :
      Expected db chain ⟨line.id,line.walletAddress,.creditLimit,.text line.creditLimit,
        .text record.creditLimit,.critical⟩
  | availableCredit (line : StoredLine) (record : OnChainCreditRecord) (hline : line ∈ db)
      (hrecord : record ∈ chain) (hsame : trim record.walletAddress = trim line.walletAddress)
      (hdiffer : ¬ SameAmount line.availableCredit record.availableCredit) :
      Expected db chain ⟨line.id,line.walletAddress,.availableCredit,.text line.availableCredit,
        .text record.availableCredit,.warning⟩
  | interestRateBps (line : StoredLine) (record : OnChainCreditRecord) (hline : line ∈ db)
      (hrecord : record ∈ chain) (hsame : trim record.walletAddress = trim line.walletAddress)
      (hdiffer : ¬ line.interestRateBps.strictEquals record.interestRateBps) :
      Expected db chain ⟨line.id,line.walletAddress,.interestRateBps,.number line.interestRateBps,
        .number record.interestRateBps,.warning⟩
  | status (line : StoredLine) (record : OnChainCreditRecord) (hline : line ∈ db)
      (hrecord : record ∈ chain) (hsame : trim record.walletAddress = trim line.walletAddress)
      (hdiffer : statusText line.status ≠ record.status) :
      Expected db chain ⟨line.id,line.walletAddress,.status,.text (statusText line.status),
        .text record.status,.critical⟩

/-- The wallet and the field a mismatch is about. -/
def about (m : ReconciliationMismatch) : String × Field := (trim m.walletAddress,m.field)

theorem mem_flag {line : StoredLine} {field : Field} {dbValue chainValue : Value}
    {severity : Severity} {differ : Bool} {m : ReconciliationMismatch} :
    m ∈ flag line field dbValue chainValue severity differ ↔
      differ = true ∧ m = ⟨line.id,line.walletAddress,field,dbValue,chainValue,severity⟩ := by
  unfold flag
  cases differ <;> simp

theorem mem_compareWallets {line : StoredLine} {record : OnChainCreditRecord} {key : String}
    {m : ReconciliationMismatch} :
    m ∈ compareWallets line record key key ↔ line.walletAddress ≠ record.walletAddress ∧
      m = ⟨line.id,key,.walletAddressFormatting,.text (sanitizeText line.walletAddress),
        .text (sanitizeText record.walletAddress),.warning⟩ := by
  unfold compareWallets
  by_cases h : line.walletAddress = record.walletAddress <;> simp [h]

theorem differ_iff (left right : String) :
    (! decimalStringsEqual left right) = true ↔ ¬ SameAmount left right := by
  rw [← sameAmount_of_decimalStringsEqual,Bool.not_eq_true',Bool.not_eq_true]

section Report
variable {db : List StoredLine} {chain : List OnChainCreditRecord}

theorem expected_of_mem_lineReport
    (hchain : Proper (chain.map OnChainCreditRecord.walletAddress)) {line : StoredLine}
    (hline : line ∈ db) {m : ReconciliationMismatch} (hm : m ∈ lineReport chain line) :
    Expected db chain m := by
  unfold lineReport at hm
  split at hm
  · rename_i hnone
    rw [List.mem_singleton] at hm
    rw [hm]
    exact .missingOnChain line hline ((get_byWallet_eq_none hchain).mp hnone)
  · rename_i record hget
    rcases (get_byWallet hchain).mp hget with ⟨hrecord,hsame⟩
    rw [hsame,List.mem_append,mem_compareWallets,compareValues] at hm
    simp only [List.mem_append,mem_flag,differ_iff] at hm
    rcases hm with ⟨hd,rfl⟩ | ((⟨hd,rfl⟩ | ⟨hd,rfl⟩) | ⟨hd,rfl⟩) | ⟨hd,rfl⟩
    · exact .walletAddressFormatting line record hline hrecord hsame hd
    · exact .creditLimit line record hline hrecord hsame hd
    · exact .availableCredit line record hline hrecord hsame hd
    · exact .interestRateBps line record hline hrecord hsame (by simpa using hd)
    · exact .status line record hline hrecord hsame (of_decide_eq_true hd)

theorem lineReport_common (hchain : Proper (chain.map OnChainCreditRecord.walletAddress))
    {line : StoredLine} {record : OnChainCreditRecord} (hrecord : record ∈ chain)
    (hsame : trim record.walletAddress = trim line.walletAddress) :
    lineReport chain line =
      compareWallets line record (trim line.walletAddress) (trim line.walletAddress) ++
        compareValues line record := by
  have hget := (get_byWallet hchain).mpr ⟨hrecord,hsame⟩
  unfold lineReport
  rw [hget]
  simp only [hsame]

theorem mem_report (hdb : Proper (db.map StoredLine.walletAddress))
    (hchain : Proper (chain.map OnChainCreditRecord.walletAddress)) (m : ReconciliationMismatch) :
    m ∈ report db chain ↔ Expected db chain m := by
  have hline : ∀ line ∈ db, m ∈ lineReport chain line → m ∈ report db chain := fun line hl hm =>
    List.mem_append_left _ (List.mem_flatMap.mpr ⟨line,hl,hm⟩)
  constructor
  · intro hm
    rcases List.mem_append.mp hm with hm | hm
    · rcases List.mem_flatMap.mp hm with ⟨line,hl,hm⟩
      exact expected_of_mem_lineReport hchain hl hm
    · rcases List.mem_map.mp hm with ⟨record,hrecord,rfl⟩
      rcases List.mem_filter.mp hrecord with ⟨hmem,hnone⟩
      exact .missingInDb record hmem
        ((get_byWallet_eq_none hdb).mp (Option.isNone_iff_eq_none.mp hnone))
  · intro hm
    cases hm with
    | missingOnChain line hl hnone =>
        apply hline line hl
        unfold lineReport
        rw [(get_byWallet_eq_none hchain).mpr hnone]
        exact List.mem_singleton_self _
    | missingInDb record hr hnone =>
        apply List.mem_append_right
        apply List.mem_map.mpr
        refine ⟨record,List.mem_filter.mpr ⟨hr,?_⟩,rfl⟩
        rw [(get_byWallet_eq_none hdb).mpr hnone]
        rfl
    | walletAddressFormatting line record hl hr hsame hd =>
        apply hline line hl
        rw [lineReport_common hchain hr hsame,List.mem_append,mem_compareWallets]
        exact .inl ⟨hd,rfl⟩
    | creditLimit line record hl hr hsame hd =>
        apply hline line hl
        rw [lineReport_common hchain hr hsame]
        simp only [compareValues,List.mem_append,mem_flag,differ_iff]
        exact .inr (.inl (.inl (.inl ⟨hd,trivial⟩)))
    | availableCredit line record hl hr hsame hd =>
        apply hline line hl
        rw [lineReport_common hchain hr hsame]
        simp only [compareValues,List.mem_append,mem_flag,differ_iff]
        exact .inr (.inl (.inl (.inr ⟨hd,trivial⟩)))
    | interestRateBps line record hl hr hsame hd =>
        apply hline line hl
        rw [lineReport_common hchain hr hsame]
        simp only [compareValues,List.mem_append,mem_flag]
        exact .inr (.inl (.inr ⟨by simpa using hd,trivial⟩))
    | status line record hl hr hsame hd =>
        apply hline line hl
        rw [lineReport_common hchain hr hsame]
        simp only [compareValues,List.mem_append,mem_flag]
        exact .inr (.inr ⟨decide_eq_true hd,trivial⟩)

/-! ## No mismatch twice -/

theorem map_about_flag (line : StoredLine) (field : Field) (dbValue chainValue : Value)
    (severity : Severity) (differ : Bool) :
    ((flag line field dbValue chainValue severity differ).map about).Sublist
      [(trim line.walletAddress,field)] := by
  unfold flag
  cases differ <;> simp [about]

theorem map_about_compareWallets (line : StoredLine) (record : OnChainCreditRecord) :
    ((compareWallets line record (trim line.walletAddress) (trim line.walletAddress)).map
      about).Sublist [(trim line.walletAddress,.walletAddressFormatting)] := by
  unfold compareWallets
  by_cases h : line.walletAddress = record.walletAddress <;> simp [h,about,trim_trim]

/-- One line's mismatches are about its own wallet, each field at most once. -/
theorem map_about_lineReport (hchain : Proper (chain.map OnChainCreditRecord.walletAddress))
    (line : StoredLine) :
    ((lineReport chain line).map about).Sublist
      ([.existence,.walletAddressFormatting,.creditLimit,.availableCredit,.interestRateBps,
        .status].map fun field => (trim line.walletAddress,field)) := by
  cases hget : (byWallet OnChainCreditRecord.walletAddress chain).get
      (trim line.walletAddress) with
  | none =>
      unfold lineReport
      rw [hget]
      simp [missingOnChain,about]
  | some record =>
      rcases (get_byWallet hchain).mp hget with ⟨hr,hsame⟩
      rw [lineReport_common hchain hr hsame,compareValues]
      simp only [List.map_append]
      apply List.Sublist.cons
      exact (map_about_compareWallets line record).append
        ((((map_about_flag _ _ _ _ _ _).append (map_about_flag _ _ _ _ _ _)).append
          (map_about_flag _ _ _ _ _ _)).append (map_about_flag _ _ _ _ _ _))

theorem report_nodup (hdb : Proper (db.map StoredLine.walletAddress))
    (hchain : Proper (chain.map OnChainCreditRecord.walletAddress)) :
    ((report db chain).map about).Nodup := by
  have hwallet : ∀ line m, m ∈ (lineReport chain line).map about →
      m.1 = trim line.walletAddress := by
    intro line m hm
    rcases List.mem_map.mp ((map_about_lineReport hchain line).subset hm) with ⟨field,-,rfl⟩
    rfl
  unfold report
  rw [List.map_append,List.map_flatMap]
  apply List.Nodup.append
  · rw [List.nodup_flatMap]
    constructor
    · intro line _
      refine List.Nodup.sublist (map_about_lineReport hchain line) (List.Nodup.map ?_ (by decide))
      intro f g hfg
      exact congrArg Prod.snd hfg
    · have hpairs : db.Pairwise fun x y => trim x.walletAddress ≠ trim y.walletAddress := by
        have hnodup := hdb.2
        rw [List.map_map] at hnodup
        exact List.pairwise_map.mp hnodup
      refine hpairs.imp ?_
      intro x y hne m hx hy
      exact hne ((hwallet x m hx).symm.trans (hwallet y m hy))
  · have hnodup := hchain.2
    rw [List.map_map] at hnodup
    have hsub : (missingRecords db chain).map about =
        (chain.filter fun record => ((byWallet StoredLine.walletAddress db).get
          (trim record.walletAddress)).isNone).map
            ((fun wallet => (wallet,Field.existence)) ∘
              (trim ∘ OnChainCreditRecord.walletAddress)) := by
      unfold missingRecords
      rw [List.map_map]
      rfl
    rw [hsub,← List.map_map]
    apply List.Nodup.map
    · intro v w hvw
      exact congrArg Prod.fst hvw
    · exact hnodup.sublist (List.filter_sublist.map _)
  · intro m hline hrecord
    rcases List.mem_flatMap.mp hline with ⟨line,hl,hm⟩
    rcases List.mem_map.mp hrecord with ⟨n,hn,rfl⟩
    rcases List.mem_map.mp hn with ⟨record,hr,rfl⟩
    have hnone := Option.isNone_iff_eq_none.mp (List.mem_filter.mp hr).2
    exact (get_byWallet_eq_none hdb).mp hnone line hl (hwallet line _ hm).symm

end Report

/-! ## The whole call -/

section Call
variable {now : ℤ} {findAll : Reads} {records : Except Rejection (List OnChainCreditRecord)}
  {result : ReconciliationResult}

theorem reconcile_of_exec_ok
    (h : exec (compareSources (fetchAllDbCreditLines findAll) records) { timestamp := now } =
      (.ok (),result)) : reconcile now findAll records = .ok result := by
  have hbody := exec_tryCatch_ok reportFailure h
  unfold exec at hbody
  unfold reconcile
  dsimp only
  rw [hbody]

theorem exec_reportFailure {e : Rejection} {message : String}
    (h : sanitizeStellarDiagnostic e = .ok message) (result : ReconciliationResult) :
    exec (reportFailure e) result =
      (.ok (),{ result with errors := result.errors ++ [message] }) := by
  unfold reportFailure
  rw [h,Except.mapError,exec_bind_ok (exec_liftExcept _)]
  exact exec_pushError message

/-- The handler appends the error, and the call resolves. -/
theorem reconcile_of_exec_error {e : Rejection} (he : e.Printable)
    (h : exec (compareSources (fetchAllDbCreditLines findAll) records) { timestamp := now } =
      (.error e,result)) :
    ∃ message, reconcile now findAll records =
      .ok { result with errors := result.errors ++ [message] } := by
  obtain ⟨message,hmessage⟩ := sanitizeStellarDiagnostic_of_printable he
  have hbody := exec_tryCatch_error reportFailure h
  rw [exec_reportFailure hmessage] at hbody
  use message
  unfold exec at hbody
  unfold reconcile
  dsimp only
  rw [hbody]

/-- The handler throws, and the call rejects. -/
theorem reconcile_of_unprintable {e : Thrown}
    (h : exec (compareSources (fetchAllDbCreditLines findAll) records) { timestamp := now } =
      (.error (.unprintable e),result)) : reconcile now findAll records = .error (.error e) := by
  have hbody := exec_tryCatch_error reportFailure h
  have hthrows : exec (reportFailure (.unprintable e)) result = (.error (.error e),result) :=
    exec_bind_error (exec_liftExcept _)
  rw [hthrows] at hbody
  unfold exec at hbody
  unfold reconcile
  dsimp only
  rw [hbody]

theorem reconcile_proper {db : List StoredLine} {chain : List OnChainCreditRecord}
    (hdb : Proper (db.map StoredLine.walletAddress))
    (hchain : Proper (chain.map OnChainCreditRecord.walletAddress))
    (hfetched : fetchAllDbCreditLines findAll = .ok db) :
    reconcile now findAll (.ok chain) =
      .ok ⟨now,max db.length chain.length,report db chain,[]⟩ := by
  apply reconcile_of_exec_ok
  rw [hfetched]
  exact exec_compareSources_proper hdb hchain now

/-- One of the ways in which a reconciliation cannot compare the two sides. -/
def Obstructed (findAll : Reads) (records : Except Rejection (List OnChainCreditRecord)) : Prop :=
  (∃ e, fetchAllDbCreditLines findAll = .error e) ∨ (∃ e, records = .error e) ∨
    ∃ db chain, fetchAllDbCreditLines findAll = .ok db ∧ records = .ok chain ∧
      ¬ (Proper (db.map StoredLine.walletAddress) ∧
        Proper (chain.map OnChainCreditRecord.walletAddress))

/-- The fetch that fails rejects with the value; the records are not fetched when the
lines cannot be. -/
def FetchFails (findAll : Reads) (records : Except Rejection (List OnChainCreditRecord))
    (r : Rejection) : Prop :=
  fetchAllDbCreditLines findAll = .error r ∨
    (∃ db, fetchAllDbCreditLines findAll = .ok db) ∧ records = .error r

/-- No fetch fails with a value that no text can be made of. -/
def Reportable (findAll : Reads) (records : Except Rejection (List OnChainCreditRecord)) : Prop :=
  ∀ r, FetchFails findAll records r → r.Printable

theorem exec_compareSources_fetch {r : Rejection} (h : FetchFails findAll records r) (now : ℤ) :
    exec (compareSources (fetchAllDbCreditLines findAll) records) { timestamp := now } =
      (.error r,{ timestamp := now }) := by
  unfold compareSources
  rcases h with hdb | ⟨⟨db,hdb⟩,hrecords⟩
  · rw [hdb]
    exact exec_bind_error (exec_liftExcept _)
  · rw [hdb,hrecords,exec_bind_ok (exec_liftExcept _)]
    exact exec_bind_error (exec_liftExcept _)

theorem reconcile_fetch_failed {r : Rejection} (h : FetchFails findAll records r)
    (hr : r.Printable) (now : ℤ) :
    ∃ result, reconcile now findAll records = .ok result ∧ result.errors ≠ [] := by
  obtain ⟨message,hresult⟩ := reconcile_of_exec_error hr (exec_compareSources_fetch h now)
  exact ⟨_,hresult,by simp⟩

theorem reconcile_improper {db : List StoredLine} {chain : List OnChainCreditRecord}
    (hdb : fetchAllDbCreditLines findAll = .ok db)
    (h : ¬ (Proper (db.map StoredLine.walletAddress) ∧
      Proper (chain.map OnChainCreditRecord.walletAddress))) (now : ℤ) :
    ∃ result, reconcile now findAll (.ok chain) = .ok result ∧ result.errors ≠ [] := by
  rcases exec_compareSources_improper h now with ⟨result,hexec⟩ | ⟨result,hexec,hne⟩
  · rw [← hdb] at hexec
    obtain ⟨message,hresult⟩ := reconcile_of_exec_error emptyWallet_printable hexec
    exact ⟨_,hresult,by simp⟩
  · rw [← hdb] at hexec
    exact ⟨result,reconcile_of_exec_ok hexec,hne⟩

theorem reconcile_obstructed (h : Obstructed findAll records)
    (hreportable : Reportable findAll records) (now : ℤ) :
    ∃ result, reconcile now findAll records = .ok result ∧ result.errors ≠ [] := by
  rcases h with ⟨e,he⟩ | ⟨e,he⟩ | ⟨db,chain,hdb,rfl,himproper⟩
  · exact reconcile_fetch_failed (.inl he) (hreportable e (.inl he)) now
  · cases hdb : fetchAllDbCreditLines findAll with
    | error r => exact reconcile_fetch_failed (.inl hdb) (hreportable r (.inl hdb)) now
    | ok db =>
        have hfails : FetchFails findAll records e := .inr ⟨⟨db,hdb⟩,he⟩
        exact reconcile_fetch_failed hfails (hreportable e hfails) now
  · exact reconcile_improper hdb himproper now

theorem FetchFails.obstructed {r : Rejection} (h : FetchFails findAll records r) :
    Obstructed findAll records := by
  rcases h with hdb | ⟨-,hrecords⟩
  · exact .inl ⟨r,hdb⟩
  · exact .inr (.inl ⟨r,hrecords⟩)

end Call

/-- On proper lists the report holds each expected mismatch once and nothing else. In
every other case the call resolves with an error exactly when no fetch has failed with
a value that no text can be made of. -/
theorem reconciliation_exact_iff (now : ℤ) :
    (∀ db chain, db.length ≤ reconciliationMaxDbRecords →
      Proper (db.map StoredLine.walletAddress) →
      Proper (chain.map OnChainCreditRecord.walletAddress) →
      ∃ result, reconcile now (unchanging db) (.ok chain) = .ok result ∧ result.errors = [] ∧
        (result.mismatches.map about).Nodup ∧
        (∀ m, m ∈ result.mismatches ↔ Expected db chain m) ∧
        ∀ m ∈ result.mismatches, m.field ≠ .walletAddress) ∧
    ∀ findAll records, (Obstructed findAll records →
      ∃ result, reconcile now findAll records = .ok result ∧ result.errors ≠ []) ↔
        Reportable findAll records := by
  constructor
  · intro db chain hsize hdb hchain
    have hfetched : fetchAllDbCreditLines (unchanging db) = .ok db := by
      rw [fetchAllDbCreditLines_unchanging,if_pos hsize]
    refine ⟨_,reconcile_proper hdb hchain hfetched,rfl,report_nodup hdb hchain,
      mem_report hdb hchain,?_⟩
    intro m hm
    cases (mem_report hdb hchain m).mp hm <;> simp
  · intro findAll records
    constructor
    · rintro hresolves r hfails e rfl
      obtain ⟨result,hresult,-⟩ := hresolves hfails.obstructed
      rw [reconcile_of_unprintable (exec_compareSources_fetch hfails now)] at hresult
      cases hresult
    · intro hreportable h
      exact reconcile_obstructed h hreportable now

def sampleLine (id walletAddress creditLimit : String) (status : CreditModels.CreditLineStatus) :
    StoredLine := ⟨id,walletAddress,creditLimit,creditLimit,.finite 500,status,0⟩

def sampleRecord (id walletAddress creditLimit : String) : OnChainCreditRecord :=
  ⟨id,walletAddress,creditLimit,creditLimit,.finite 500,"active"⟩

theorem reconciliation_exact_iff_sample :
    (∃ result, reconcile 0 (unchanging [sampleLine "1" "GA" "10.50" .active])
        (.ok [sampleRecord "0" " GA" "10.5",sampleRecord "1" "GB" "7"]) = .ok result ∧
      result.errors = [] ∧ (result.mismatches.map about).Nodup ∧
      missingInDb (sampleRecord "1" "GB" "7") ∈ result.mismatches) ∧
    ∃ result, reconcile 0 (unchanging [sampleLine "1" "GA" "10" .active]) (.error
        (.error ⟨"Error","timeout"⟩)) = .ok result ∧ result.errors ≠ [] := by
  constructor
  · rcases (reconciliation_exact_iff 0).1 [sampleLine "1" "GA" "10.50" .active]
      [sampleRecord "0" " GA" "10.5",sampleRecord "1" "GB" "7"] (by decide) (by decide)
      (by decide) with ⟨result,hresult,herrors,hnodup,hmem,-⟩
    exact ⟨result,hresult,herrors,hnodup,
      (hmem _).mpr (.missingInDb (sampleRecord "1" "GB" "7") (by decide) (by decide))⟩
  · refine ((reconciliation_exact_iff 0).2 _ _).mpr ?_ (.inr (.inl ⟨_,rfl⟩))
    rintro r (hdb | ⟨-,hrecords⟩) e rfl
    · rw [fetchAllDbCreditLines_unchanging,if_pos (by decide)] at hdb
      cases hdb
    · cases hrecords

/-- What reading `replace` of `undefined` throws. -/
def undefinedReplace : Thrown :=
  ⟨"TypeError","Cannot read properties of undefined (reading 'replace')"⟩

/-- The records are fetched by a client that rejects with `undefined`. -/
theorem reconcile_rejects_on_undefined :
    ¬ (Obstructed (unchanging []) (.error (.unprintable undefinedReplace)) →
      ∃ result, reconcile 0 (unchanging []) (.error (.unprintable undefinedReplace)) =
        .ok result ∧ result.errors ≠ []) := by
  intro h
  have hfails : FetchFails (unchanging []) (.error (.unprintable undefinedReplace))
      (.unprintable undefinedReplace) :=
    .inr ⟨⟨[],fetchAllDbCreditLines_unchanging []⟩,rfl⟩
  obtain ⟨result,hresult,-⟩ := h hfails.obstructed
  rw [reconcile_of_unprintable (exec_compareSources_fetch hfails 0)] at hresult
  cases hresult

/-! ## Wallets with several rows -/

/-- The lines that are not closed belong to different wallets, as the partial
unique index has it. -/
def OneOpenLine (db : List StoredLine) : Prop :=
  ((db.filter (·.status ≠ .closed)).map StoredLine.walletAddress).Nodup

instance (db : List StoredLine) : Decidable (OneOpenLine db) :=
  inferInstanceAs (Decidable
    ((db.filter (·.status ≠ .closed)).map StoredLine.walletAddress).Nodup)

theorem reconcile_improper_db (now : ℤ) {db : List StoredLine}
    {chain : List OnChainCreditRecord} (hsize : db.length ≤ reconciliationMaxDbRecords)
    (hchain : Proper (chain.map OnChainCreditRecord.walletAddress))
    (hdb : ¬ Proper (db.map StoredLine.walletAddress)) :
    ∃ result, reconcile now (unchanging db) (.ok chain) = .ok result ∧ result.mismatches = [] ∧
      result.errors ≠ [] ∧ (NoBlank (db.map StoredLine.walletAddress) →
        ∀ w, 2 ≤ ((db.map StoredLine.walletAddress).map trim).count w →
          duplicateDb w ∈ result.errors) := by
  have hfetched : fetchAllDbCreditLines (unchanging db) = .ok db := by
    rw [fetchAllDbCreditLines_unchanging,if_pos hsize]
  by_cases hblank : NoBlank (db.map StoredLine.walletAddress)
  · rcases findDuplicateWallets_noBlank hblank with ⟨found,hrun,hfound⟩
    have hsome : found ≠ [] := by
      rintro rfl
      exact hdb (proper_of_findDuplicateWallets hrun)
    have hexec := exec_compareSources_duplicates hrun (findDuplicateWallets_proper hchain)
      (.inl hsome) now
    rw [← hfetched] at hexec
    refine ⟨_,reconcile_of_exec_ok hexec,rfl,by simp [hsome],?_⟩
    intro _ w hw
    exact List.mem_append_left _ (List.mem_map_of_mem ((hfound w).mpr hw))
  · have hexec : exec (compareSources (.ok db) (.ok chain)) { timestamp := now } = _ :=
      exec_compareSources_blank (.inl hblank) now
    rw [← hfetched] at hexec
    obtain ⟨message,hresult⟩ := reconcile_of_exec_error emptyWallet_printable hexec
    exact ⟨_,hresult,rfl,by simp,fun h => absurd h hblank⟩

/-- Drift is reported for every wallet as long as no wallet has two rows; when
one has, nothing is compared and every such wallet is named. -/
theorem drift_reported_unless_rows_share_a_wallet (now : ℤ) (db : List StoredLine)
    (chain : List OnChainCreditRecord) (hsize : db.length ≤ reconciliationMaxDbRecords)
    (hchain : Proper (chain.map OnChainCreditRecord.walletAddress)) :
    ∃ result, reconcile now (unchanging db) (.ok chain) = .ok result ∧
      (Proper (db.map StoredLine.walletAddress) →
        ∀ m, Expected db chain m → m ∈ result.mismatches) ∧
      (¬ Proper (db.map StoredLine.walletAddress) →
        result.mismatches = [] ∧ result.errors ≠ [] ∧
        (NoBlank (db.map StoredLine.walletAddress) →
          ∀ w, 2 ≤ ((db.map StoredLine.walletAddress).map trim).count w →
            duplicateDb w ∈ result.errors)) := by
  by_cases hdb : Proper (db.map StoredLine.walletAddress)
  · have hfetched : fetchAllDbCreditLines (unchanging db) = .ok db := by
      rw [fetchAllDbCreditLines_unchanging,if_pos hsize]
    refine ⟨_,reconcile_proper hdb hchain hfetched,?_,fun hnot => absurd hdb hnot⟩
    intro _ m hm
    exact (mem_report hdb hchain m).mpr hm
  · rcases reconcile_improper_db now hsize hchain hdb with ⟨result,hresult,hstopped⟩
    exact ⟨result,hresult,fun h => absurd h hdb,fun _ => hstopped⟩

/-- Three wallets, of which the contract knows two, one of them under another limit. -/
def sampleTable : List StoredLine :=
  [sampleLine "1" "GA" "10" .active,sampleLine "2" "GB " "20" .active,
    sampleLine "3" "GC" "30" .suspended]

theorem drift_reported_unless_rows_share_a_wallet_sample :
    (∃ result, reconcile 0 (unchanging sampleTable)
        (.ok [sampleRecord "0" "GB" "25",sampleRecord "1" "GA" "10.0"]) = .ok result ∧
      missingOnChain (sampleLine "3" "GC" "30" .suspended) ∈ result.mismatches ∧
      ⟨"2","GB ",.creditLimit,.text "20",.text "25",.critical⟩ ∈ result.mismatches) ∧
    ∃ result, reconcile 0 (unchanging (sampleLine "0" "GA" "5" .closed :: sampleTable))
        (.ok [sampleRecord "0" "GB" "25",sampleRecord "1" "GA" "10.0"]) = .ok result ∧
      result.mismatches = [] ∧ duplicateDb "GA" ∈ result.errors := by
  constructor
  · rcases drift_reported_unless_rows_share_a_wallet 0 sampleTable
      [sampleRecord "0" "GB" "25",sampleRecord "1" "GA" "10.0"] (by decide) (by decide)
      with ⟨result,hresult,hreported,-⟩
    have hlimit : ¬ SameAmount "20" "25" := by
      rw [← sameAmount_of_decimalStringsEqual]
      decide
    exact ⟨result,hresult,
      hreported (by decide) _
        (.missingOnChain (sampleLine "3" "GC" "30" .suspended) (by decide) (by decide)),
      hreported (by decide) _
        (.creditLimit (sampleLine "2" "GB " "20" .active) (sampleRecord "0" "GB" "25")
          (by decide) (by decide) (by decide) hlimit)⟩
  · rcases drift_reported_unless_rows_share_a_wallet 0
      (sampleLine "0" "GA" "5" .closed :: sampleTable)
      [sampleRecord "0" "GB" "25",sampleRecord "1" "GA" "10.0"] (by decide) (by decide)
      with ⟨result,hresult,-,hstopped⟩
    obtain ⟨hnone,-,hnamed⟩ := hstopped (by decide)
    have hblank : ∀ w ∈ (sampleLine "0" "GA" "5" .closed :: sampleTable).map
        StoredLine.walletAddress, trim w ≠ "" := by decide
    exact ⟨result,hresult,hnone,hnamed hblank "GA" (by decide)⟩

/-- Beside these lines, a line that is missing from the contract goes unreported. -/
def HidesMissingLine (others : List StoredLine) : Prop :=
  let line := sampleLine "3" "GB" "10" .active
  let db := others ++ [line]
  OneOpenLine db ∧ (db.filter (trim ·.walletAddress = "GB")).length = 1 ∧
    Expected db [] (missingOnChain line) ∧
    ∃ result, reconcile 0 (unchanging db) (.ok []) = .ok result ∧
      missingOnChain line ∉ result.mismatches

theorem hidesMissingLine_of_improper {others : List StoredLine}
    (hdb : let db := others ++ [sampleLine "3" "GB" "10" .active]
      OneOpenLine db ∧ (db.filter (trim ·.walletAddress = "GB")).length = 1 ∧
        db.length ≤ reconciliationMaxDbRecords ∧ ¬ Proper (db.map StoredLine.walletAddress)) :
    HidesMissingLine others := by
  rcases hdb with ⟨hopen,hone,hsize,hnot⟩
  have hnone : Proper (([] : List OnChainCreditRecord).map OnChainCreditRecord.walletAddress) := by
    decide
  have hrecords : ∀ record ∈ ([] : List OnChainCreditRecord),
      trim record.walletAddress ≠ trim (sampleLine "3" "GB" "10" .active).walletAddress := by
    intro record hrecord
    cases hrecord
  refine ⟨hopen,hone,.missingOnChain _ (List.mem_append_right _ (List.mem_singleton_self _))
    hrecords,?_⟩
  rcases reconcile_improper_db 0 hsize hnone hnot with ⟨result,hresult,hnil,-⟩
  refine ⟨result,hresult,?_⟩
  rw [hnil]
  exact List.not_mem_nil

/-- A closed and an open line of one wallet, or a line with a blank wallet, hide
that another wallet's line is missing from the contract. -/
theorem rows_of_one_wallet_hide_the_others :
    HidesMissingLine [sampleLine "1" "GA" "10" .closed,sampleLine "2" "GA" "10" .active] ∧
      HidesMissingLine [sampleLine "1" " " "10" .active] :=
  ⟨hidesMissingLine_of_improper (by decide),hidesMissingLine_of_improper (by decide)⟩

end Creditra.ReconciliationReports
