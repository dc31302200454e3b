import NetworkPrograms.RegistryLookup

/-! The answer to a SEARCH as a function of what has happened: which connections
stand, from where they came, and what each has joined with and published. -/
namespace NetworkPrograms.RegistryAnswers
open WireBytes RegistryState RegistrySearch RegistryServe RegistryTable RegistryHistory RegistryReplies
open EventMachine

section
variable {listenSock : Nat} {log : History} {s : Server}

end

end NetworkPrograms.RegistryAnswers
