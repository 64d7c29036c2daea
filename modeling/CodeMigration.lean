import CodeMigration.Docs.Lifecycle
import CodeMigration.Main
import CodeMigration.Survey
import CodeMigration.Proofs.SharedWorkDir
import CodeMigration.Proofs.WorkflowReturns
import CodeMigration.Proofs.SecondRuns
import CodeMigration.Proofs.JobRegistry
import CodeMigration.Proofs.FinalReport
import CodeMigration.Proofs.UploadedFiles
import CodeMigration.Proofs.KindCounts
import CodeMigration.Proofs.MendedTrees
import CodeMigration.Proofs.LineRanges
import CodeMigration.Proofs.ReadAddresses
import CodeMigration.Proofs.TestEvidence
import CodeMigration.Proofs.QuotedTexts
import CodeMigration.Proofs.ServedMethods
import CodeMigration.Proofs.KeptStatements
import CodeMigration.Proofs.RepeatedUses
import CodeMigration.Proofs.MisreadRanges
import CodeMigration.Proofs.GuideKeys
import CodeMigration.Proofs.FixCounts
import CodeMigration.Proofs.RepositorySources
import CodeMigration.Proofs.ReusedTransformers
import CodeMigration.Proofs.TalliedChanges
import CodeMigration.Proofs.KeptFrames
import CodeMigration.Proofs.FencedCode
import CodeMigration.Proofs.PrintBlocks
