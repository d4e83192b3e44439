import TopicRegistry.Config
import TopicRegistry.Document.Standard
import TopicRegistry.Proofs.AccessPaths
import TopicRegistry.Proofs.Accounts
import TopicRegistry.Proofs.Admission
import TopicRegistry.Proofs.Agreement
import TopicRegistry.Proofs.Batches
import TopicRegistry.Proofs.Calls
import TopicRegistry.Proofs.Configurations
import TopicRegistry.Proofs.Covering
import TopicRegistry.Proofs.Delivery
import TopicRegistry.Proofs.Depth
import TopicRegistry.Proofs.Grammar
import TopicRegistry.Proofs.Isolation
import TopicRegistry.Proofs.Legality
import TopicRegistry.Proofs.Masks
import TopicRegistry.Proofs.Names
import TopicRegistry.Proofs.Pruning
import TopicRegistry.Proofs.Quota
import TopicRegistry.Proofs.Representation
import TopicRegistry.Proofs.Requests
import TopicRegistry.Proofs.Teardown
import TopicRegistry.Registry.Basic
import TopicRegistry.Registry.FilterTree.Lemmas
import TopicRegistry.Registry.Index.Lemmas
import TopicRegistry.Registry.Query
