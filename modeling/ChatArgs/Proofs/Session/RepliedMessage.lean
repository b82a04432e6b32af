import ChatArgs.Proofs.Parse.RepliedUser
import ChatArgs.Proofs.Session.Transparency

/-!
# Parses for a message

In a session, a parse for a message leaves its result with the message and changes nothing else in
it. The author that the message replies to fills the first slot or the message does not count.
-/

namespace ChatArgs

theorem Records.final {h : History} {l : Ledger} {s : Session} (records : Records h l s)
    (actions : List Action) :
    ∃ h', Records h' (l.runAll actions).2 (s.runAll actions).2 := by
  induction actions generalizing h l s with
  | nil => exact ⟨h, records⟩
  | cons a actions ih =>
      obtain ⟨-, h', records'⟩ := records.act a
      exact ih records'

namespace Session

variable {actions : List Action} {s : Session} {parser command message : String}
  {bound : BoundParser} {r : Registered} {m : Message}

/-- Whatever a session went through, a parse answers what the declaration of the command gives
under the settings of the parser. -/
theorem runParse_reached (reached : s = (runAll {} actions).2)
    (knownParser : s.parsers.get? parser = some bound)
    (knownCommand : s.commands.get? command = some r) (content : String)
    (sent : Option Message) :
    ∃ s', s.runParse bound r content sent =
      (r.command.parse bound.parser.config content sent, s') := by
  obtain ⟨h, records⟩ := Records.empty.final actions
  rw [← reached] at records
  rcases records.parsers.get? parser with ⟨-, unknown⟩ | ⟨settings, bound', -, known, made⟩
  · simp [knownParser] at unknown
  rcases records.commands.get? command with ⟨-, unknown⟩ | ⟨_, r', -, known', -, declared⟩
  · simp [knownCommand] at unknown
  obtain rfl := Option.some.inj (knownParser.symm.trans known)
  obtain rfl := Option.some.inj (knownCommand.symm.trans known')
  obtain ⟨s', -, parsed⟩ := records.runParse made declared content sent
  have config : bound.parser.config = settings := by rw [made.2]; rfl
  refine ⟨s', ?_⟩
  rw [parsed, Ledger.freshParse, Cache.parse_empty, config]

/-- The result of a parse for a message is left with it; who sent the message, to whom it replies
and whom it mentions stays. Where the author replied to may fill the first slot, the result is
that author and what a parse for the other options gives. Elsewhere it is that of a parse without
the message. -/
theorem parseMessage_replied (actions : List Action) {s : Session}
    (reached : s = (runAll {} actions).2) {parser command message : String}
    {bound : BoundParser} {r : Registered} {m : Message} (content : String)
    (knownParser : s.parsers.get? parser = some bound)
    (knownCommand : s.commands.get? command = some r)
    (knownMessage : s.messages.get? message = some m) :
    ∃ args m', (s.act (.parseMessage parser command message content)).1 = .args args ∧
      (s.act (.parseMessage parser command message content)).2.messages.get? message = some m' ∧
      (m'.result = some args ∧ m'.author = m.author ∧ m'.repliedTo = m.repliedTo ∧
        m'.mentions = m.mentions) ∧
      (∀ user filling replied, r.command.defect? = none →
        (r.command.configFor bound.parser.config).replyFilling = some filling →
        (Table.ofCommand r.command).slots.head? = some user → user.kind = .user →
        m.repliedTo = some replied →
        (filling.requirePing = true → replied = m.author ∨ replied ∈ m.mentions) →
        ¬ ('-' :: user.name.toList) <:+: content.toList →
        ¬ (user.name.toList ++ [':']) <:+: content.toList →
        let rest := (r.command.without user.name).parse bound.parser.config content none
        args.spans = rest.spans ∧
          ∀ name, args.values.get? name = (rest.values.insert user.name replied).get? name) ∧
      ((r.command.configFor bound.parser.config).replyFilling = none ∨ m.repliedTo = none ∨
          (∃ filling replied,
            (r.command.configFor bound.parser.config).replyFilling = some filling ∧
            filling.requirePing = true ∧ m.repliedTo = some replied ∧ replied ≠ m.author ∧
            replied ∉ m.mentions) ∨
          (∀ user, (Table.ofCommand r.command).slots.head? = some user → user.kind ≠ .user) →
        (s.act (.parse parser command content)).1 = .args args) := by
  obtain ⟨s', parsed⟩ := runParse_reached reached knownParser knownCommand content (some m)
  obtain ⟨s'', plain⟩ := runParse_reached reached knownParser knownCommand content none
  have answered : s.act (.parseMessage parser command message content) =
      (.args (r.command.parse bound.parser.config content (some m)),
        s'.setMessage message
          (m.attach (r.command.parse bound.parser.config content (some m)))) := by
    simp only [act, withParser, withCommand, withMessage, withNamed, knownParser, knownCommand,
      knownMessage, parsed]
  have answered' : s.act (.parse parser command content) =
      (.args (r.command.parse bound.parser.config content none), s'') := by
    simp only [act, withParser, withCommand, withNamed, knownParser, knownCommand, plain]
  rw [answered, answered']
  refine ⟨_, _, rfl, (Entries.get?_insert ..).trans (if_pos rfl), ⟨rfl, rfl, rfl, rfl⟩, ?_, ?_⟩
  · intro user filling replied sound enabled first kind reply pinged noHyphen noColon
    exact Command.parse_replied
      ⟨sound, ⟨filling, enabled, pinged⟩, reply, first, kind, noHyphen, noColon⟩
  · intro unfilled
    rw [Command.parse_unfilled unfilled]

/-- A reply to user 2 fills the user option, and the text goes to the next one. -/
theorem parseMessage_replied_next :
    ∃ args, ((runAll {} [.newParser { replyFilling := .on none } none "p",
          .declare ⟨"c", [{ name := "u", kind := .user }, { name := "x" }], none⟩ "k",
          .newMessage { author := "1", repliedTo := some "2" } "m"]).2.act
        (.parseMessage "p" "k" "m" "u hey")).1 = .args args ∧
      args.values.get? "u" = some "2" ∧ args.values.get? "x" = some "u hey" := by
  obtain ⟨args, -, answered, -, -, filled, -⟩ := @parseMessage_replied
    [.newParser { replyFilling := .on none } none "p",
      .declare ⟨"c", [{ name := "u", kind := .user }, { name := "x" }], none⟩ "k",
      .newMessage { author := "1", repliedTo := some "2" } "m"]
    _ rfl "p" "k" "m" _ _ _ "u hey" rfl rfl rfl
  obtain ⟨-, values⟩ := filled { name := "u", kind := .user } {} "2" (by decide +kernel) rfl rfl rfl
    rfl (by decide) (by decide +kernel) (by decide +kernel)
  refine ⟨args, answered, ?_, ?_⟩
  · rw [values]
    decide +kernel
  · rw [values]
    decide +kernel

end Session

end ChatArgs
